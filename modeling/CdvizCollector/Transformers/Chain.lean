import CdvizCollector.Lib.Result
import CdvizCollector.Lib.Text
import CdvizCollector.Transformers.Script

/-!
How chains of transformers are configured and built (`transformers/mod.rs`).

A chain lists transformers, some written in place, some named in the pool that all
chains share. To build it is to compile its programs; the compiler of VRL comes
from outside.
-/

namespace CdvizCollector.Transformers

open Lib

/-- A compiled program, or the diagnostics. -/
abbrev Compiler := String → Except String (Json → Except String Json)

/-- `transformers::Config`. -/
inductive Config where
  | passthrough
  | log (target : String)
  | deduplicate (capacity : ℕ) (keyPath : String)
  | discardAll
  | vrl (template : String)
deriving DecidableEq, Repr

namespace Config

def typeName : Config → String
  | .passthrough => "passthrough"
  | .log _ => "log"
  | .deduplicate _ _ => "deduplicate"
  | .discardAll => "discard_all"
  | .vrl _ => "vrl"

/-- Without a template a program gives its input back. -/
def makeTransformer (compile : Compiler) : Config → Except String Transformer
  | .passthrough => .ok .passthrough
  | .log target => .ok (.log target)
  | .deduplicate capacity keyPath => .ok (.deduplicate capacity keyPath)
  | .discardAll => .ok .discardAll
  | .vrl template =>
      (compile (if template = "" then "[.]" else template)).map Transformer.vrl

end Config

/-- A transformer with its name in the pool, if it comes from there. -/
structure NamedConfig where
  key : Option String
  config : Config
deriving DecidableEq, Repr

namespace NamedConfig

def spanName (nc : NamedConfig) (index : ℕ) : String :=
  nc.key.getD nc.config.typeName ++ "#" ++ toString index

end NamedConfig

/-- A transformer in its `SpanPipe`. -/
structure Stage where
  name : String
  transformer : Transformer

/-- The stages of a chain from a position on, built from the last one on. -/
def buildFrom (compile : Compiler) : ℕ → List NamedConfig → Except String (List Stage)
  | _, [] => .ok []
  | index, nc :: configs => do
      let stages ← buildFrom compile (index + 1) configs
      let transformer ← nc.config.makeTransformer compile
      return { name := nc.spanName index, transformer } :: stages

def buildTransformerChain (compile : Compiler) (configs : List NamedConfig) :
    Except String (List Stage) := buildFrom compile 0 configs

/-- A name that is not in the pool. -/
structure TransformerNotFound where
  name : String
deriving DecidableEq, Repr

def resolveTransformerRefsNamed (transformerRefs : List String)
    (configs : List (String × Config)) : Except TransformerNotFound (List NamedConfig) :=
  transformerRefs.mapM fun name =>
    match configs.lookup name with
    | some config => .ok { key := some name, config }
    | none => .error { name }

structure TransformerChainConfig where
  transformerRefs : List String
  transformers : List NamedConfig
deriving DecidableEq, Repr

namespace TransformerChainConfig

def resolve (chain : TransformerChainConfig) (configs : List (String × Config)) :
    Except TransformerNotFound TransformerChainConfig := do
  let named ← resolveTransformerRefsNamed chain.transformerRefs configs
  return { chain with transformers := chain.transformers ++ named }

def append (chain : TransformerChainConfig) (extra : List NamedConfig) :
    TransformerChainConfig :=
  { chain with transformers := chain.transformers ++ extra }

end TransformerChainConfig

/-! ### References -/

/-- What a name stands for, once it is known to be in the pool. -/
def named (configs : List (String × Config)) (name : String) : NamedConfig :=
  { key := some name, config := (configs.lookup name).getD .passthrough }

/-- The names that are not in the pool. -/
def missing (configs : List (String × Config)) (transformerRefs : List String) :
    List TransformerNotFound :=
  (transformerRefs.filter fun name => (configs.lookup name).isNone).map TransformerNotFound.mk

theorem missing_eq_nil_iff {configs : List (String × Config)} {refs : List String} :
    missing configs refs = [] ↔ ∀ name ∈ refs, ∃ config, configs.lookup name = some config := by
  simp only [missing, List.map_eq_nil_iff, List.filter_eq_nil_iff, Option.isNone_iff_eq_none,
    Option.eq_none_iff_forall_ne_some, not_forall, not_not]

/-- References are resolved in order, up to the first that is missing. -/
theorem resolveTransformerRefsNamed_eq (configs : List (String × Config)) (refs : List String) :
    resolveTransformerRefsNamed refs configs =
      failFirst (missing configs refs) (refs.map (named configs)) := by
  have herrors : missing configs refs =
      refs.flatMap fun name => if (configs.lookup name).isNone then [{ name }] else [] := by
    induction refs with
    | nil => rfl
    | cons ref refs ih =>
        rw [List.flatMap_cons, ← ih, missing, List.filter_cons]
        split <;> rfl
  rw [herrors]
  refine mapM_failFirst (fun name => ?_) refs
  cases hconfig : configs.lookup name with
  | none => rfl
  | some config =>
      rw [named, hconfig]
      rfl

/-- The chain with the transformers it refers to. -/
def TransformerChainConfig.resolved (configs : List (String × Config))
    (chain : TransformerChainConfig) : TransformerChainConfig :=
  { chain with
    transformers := chain.transformers ++ chain.transformerRefs.map (named configs) }

theorem TransformerChainConfig.resolve_eq (configs : List (String × Config))
    (chain : TransformerChainConfig) :
    chain.resolve configs =
      failFirst (missing configs chain.transformerRefs) (chain.resolved configs) := by
  rw [TransformerChainConfig.resolve, resolveTransformerRefsNamed_eq]
  exact failFirst_map

/-! ### Built chains -/

/-- The transformers that some configurations stand for. -/
def Compiled (compile : Compiler) (configs : List NamedConfig) (ts : List Transformer) : Prop :=
  List.Forall₂ (fun nc t => nc.config.makeTransformer compile = .ok t) configs ts

theorem buildFrom_cons_eq_ok_iff {compile : Compiler} {index : ℕ} {nc : NamedConfig}
    {configs : List NamedConfig} {stages : List Stage} :
    buildFrom compile index (nc :: configs) = .ok stages ↔
      ∃ rest t, buildFrom compile (index + 1) configs = .ok rest ∧
        nc.config.makeTransformer compile = .ok t ∧
        { name := nc.spanName index, transformer := t } :: rest = stages := by
  rw [buildFrom, bind_eq_ok_iff]
  refine exists_congr fun rest => ?_
  rw [bind_pure_eq_ok_iff]
  exact ⟨fun ⟨hrest, t, ht, hstages⟩ => ⟨t, hrest, ht, hstages⟩,
    fun ⟨t, hrest, ht, hstages⟩ => ⟨hrest, t, ht, hstages⟩⟩

/-- A chain that is built has a stage for each configuration. -/
theorem compiled_of_buildFrom {compile : Compiler} (configs : List NamedConfig) :
    ∀ {index : ℕ} {stages : List Stage}, buildFrom compile index configs = .ok stages →
      Compiled compile configs (stages.map Stage.transformer) ∧
        stages.map Stage.name =
          (configs.zipIdx index).map fun entry => entry.1.spanName entry.2 := by
  induction configs with
  | nil =>
      intro index stages h
      have hnil : stages = [] := (Except.ok.inj h).symm
      rw [hnil]
      exact ⟨List.Forall₂.nil, rfl⟩
  | cons nc configs ih =>
      intro index stages h
      obtain ⟨rest, t, hrest, ht, rfl⟩ := buildFrom_cons_eq_ok_iff.mp h
      obtain ⟨hcompiled, hnames⟩ := ih hrest
      refine ⟨List.Forall₂.cons ht hcompiled, ?_⟩
      rw [List.map_cons, List.zipIdx_cons, List.map_cons, hnames]

/-- A chain is built exactly if each of its transformers is. -/
theorem buildFrom_isOk_iff {compile : Compiler} (configs : List NamedConfig) :
    ∀ {index : ℕ}, (∃ stages, buildFrom compile index configs = .ok stages) ↔
      ∀ nc ∈ configs, ∃ t, nc.config.makeTransformer compile = .ok t := by
  induction configs with
  | nil => exact iff_of_true ⟨[], rfl⟩ (List.forall_mem_nil _)
  | cons nc configs ih =>
      intro index
      rw [List.forall_mem_cons, ← @ih (index + 1)]
      refine Iff.trans (exists_congr fun stages => buildFrom_cons_eq_ok_iff) ?_
      exact ⟨fun ⟨_, rest, t, hrest, ht, _⟩ => ⟨⟨t, ht⟩, rest, hrest⟩,
        fun ⟨⟨t, ht⟩, rest, hrest⟩ => ⟨_, rest, t, hrest, ht, rfl⟩⟩

theorem Compiled.append_left {compile : Compiler} {configs others : List NamedConfig}
    {ts : List Transformer} (h : Compiled compile (configs ++ others) ts) :
    ∃ own rest, ts = own ++ rest ∧ Compiled compile configs own ∧
      Compiled compile others rest :=
  ⟨_, _, (List.take_append_drop configs.length ts).symm,
    (List.forall₂_take_append ts configs others h.flip).flip,
    (List.forall₂_drop_append ts configs others h.flip).flip⟩

/-- Each configuration stands for one transformer. -/
theorem Compiled.unique {compile : Compiler} {configs : List NamedConfig}
    {ts ts' : List Transformer} (h : Compiled compile configs ts)
    (h' : Compiled compile configs ts') : ts = ts' :=
  List.right_unique_forall₂'
    (fun _ _ _ ht ht' => Except.ok.inj (ht.symm.trans ht')) h h'

/-! ### Names -/

/-- The position is what follows the last `#`. -/
theorem spanName_injective {nc nc' : NamedConfig} {i j : ℕ}
    (h : nc.spanName i = nc'.spanName j) : i = j := by
  have hdigits : ∀ n : ℕ, '#' ∉ Nat.toDigits 10 n := by
    intro n hmem
    have hdigit := Nat.isDigit_of_mem_toDigits (by omega) (by omega) hmem
    contradiction
  have hsplit : ∀ (nc : NamedConfig) (n : ℕ), Text.rsplitOnce '#' (nc.spanName n).toList =
      some ((nc.key.getD nc.config.typeName).toList, Nat.toDigits 10 n) := by
    intro nc n
    have htext : (nc.spanName n).toList =
        (nc.key.getD nc.config.typeName).toList ++ '#' :: Nat.toDigits 10 n := by
      simp [NamedConfig.spanName]
    rw [htext, Text.rsplitOnce_append (hdigits n)]
  have hi := hsplit nc i
  rw [h, hsplit nc' j] at hi
  have hsame : Nat.toDigits 10 j = Nat.toDigits 10 i := (Prod.mk.inj (Option.some.inj hi)).2
  have hparsed := Text.parseDigits_toDigits i
  rw [← hsame, Text.parseDigits_toDigits j] at hparsed
  exact (Option.some.inj hparsed).symm

/-- The stages of a chain have names of their own. -/
theorem names_nodup_of_buildTransformerChain {compile : Compiler} {configs : List NamedConfig}
    {stages : List Stage} (h : buildTransformerChain compile configs = .ok stages) :
    (stages.map Stage.name).Nodup := by
  have hindexes : (configs.zipIdx.map Prod.snd).Nodup := by
    rw [List.zipIdx_map_snd]
    exact List.nodup_range'
  rw [(compiled_of_buildFrom configs h).2]
  apply List.pairwise_map.mpr
  exact (List.pairwise_map.mp hindexes).imp fun hne hname => hne (spanName_injective hname)

end CdvizCollector.Transformers
