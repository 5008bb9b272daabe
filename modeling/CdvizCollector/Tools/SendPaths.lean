import CdvizCollector.Tools.SendOverrides
import Mathlib.Data.List.Induction

/-!
The paths of the overrides of the `send` command: which of them are in conflict.

Options of different kinds never are. Two headers of one key are, two metadata of
one key outside `--run` (with it they are grouped), and a run of the type `cli`.
-/

namespace CdvizCollector.Tools.Send

open Lib Lib.Toml

/-! ### Conflicts -/

theorem prefixFree_append {l l' : List (List String)} :
    PrefixFree (l ++ l') ↔
      PrefixFree l ∧ PrefixFree l' ∧ ∀ p ∈ l, ∀ q ∈ l', ¬p <+: q ∧ ¬q <+: p :=
  List.pairwise_append

/-- Each header is given once, if the headers are used. -/
def SendArgs.HeadersOnce (args : SendArgs) : Prop :=
  args.url.isSome = true → (args.headerOptions.map fun option => Text.trim option.1).Nodup

theorem sinkOverrides_path (args : SendArgs) :
    ∀ o ∈ sinkOverrides args, ∃ rest, o.path = "sinks" :: rest := by
  unfold sinkOverrides
  intro o ho
  cases hurl : args.url with
  | none =>
      simp only [hurl, List.nil_append] at ho
      split at ho <;> simp_all [flag]
  | some url =>
      simp only [hurl, List.mem_append, List.mem_map, List.mem_flatMap] at ho
      rcases ho with ((ho | ⟨d, -, rfl⟩) | ⟨option, -, ho⟩) | ho
      · simp only [List.mem_cons, List.not_mem_nil, or_false] at ho
        rcases ho with rfl | rfl | rfl <;> exact ⟨_, rfl⟩
      · exact ⟨_, rfl⟩
      · simp only [List.mem_cons, List.not_mem_nil, or_false] at ho
        rcases ho with rfl | rfl <;> exact ⟨_, rfl⟩
      · split at ho <;> simp_all [flag]

/-- The paths of the headers. -/
theorem prefixFree_headers (options : List (String × String)) :
    PrefixFree ((options.flatMap fun option =>
        [verbatim ["sinks", "http", "headers", Text.trim option.1, "type"] "static",
          verbatim ["sinks", "http", "headers", Text.trim option.1, "value"]
            (Text.trim option.2)]).map Override.path) ↔
      (options.map fun option => Text.trim option.1).Nodup := by
  have hsymm : ∀ k k' : String, (¬k = k' ∧ ¬k' = k) ↔ ¬k = k' :=
    fun k k' => and_iff_left_of_imp fun h h' => h h'.symm
  rw [PrefixFree, List.map_flatMap, List.pairwise_flatMap, List.Nodup, List.pairwise_map]
  simp [verbatim, List.cons_prefix_cons, hsymm]

theorem prefixFree_middle {before middle after : List (List String)}
    (hfree : PrefixFree (before ++ after))
    (hcross : ∀ p ∈ before ++ after, ∀ q ∈ middle, ¬p <+: q ∧ ¬q <+: p) :
    PrefixFree (before ++ middle ++ after) ↔ PrefixFree middle := by
  obtain ⟨hbefore, hafter, hothers⟩ := prefixFree_append.mp hfree
  rw [List.forall_mem_append] at hcross
  rw [prefixFree_append, prefixFree_append]
  constructor
  · rintro ⟨⟨-, hmiddle, -⟩, -⟩
    exact hmiddle
  · intro hmiddle
    refine ⟨⟨hbefore, hmiddle, hcross.1⟩, hafter, List.forall_mem_append.mpr ⟨hothers, ?_⟩⟩
    intro p hp q hq
    exact (hcross.2 q hq p hp).symm

/-- The paths of the sinks that no argument has a part in. -/
def sinkPaths : List (List String) :=
  [["sinks", "http", "enabled"], ["sinks", "http", "destination"],
    ["sinks", "debug", "enabled"]] ++
  [["sinks", "http", "total_duration_of_retries"]] ++
  [["sinks", "http", "log_full_response_on_error"]]

theorem prefixFree_sinkOverrides (args : SendArgs) :
    PrefixFree ((sinkOverrides args).map Override.path) ↔ args.HeadersOnce := by
  unfold sinkOverrides SendArgs.HeadersOnce
  cases hurl : args.url with
  | none =>
      simp only [List.nil_append, Option.isSome_none, Bool.false_eq_true, false_imp_iff, iff_true]
      split <;> simp [PrefixFree]
  | some url =>
      simp only [Option.isSome_some, true_imp_iff, ← prefixFree_headers, List.map_append]
      generalize hbefore : List.map Override.path [flag ["sinks", "http", "enabled"] true,
          verbatim ["sinks", "http", "destination"] url,
          flag ["sinks", "debug", "enabled"] false] ++
        List.map Override.path (args.totalDurationOfRetries.toList.map
          (verbatim ["sinks", "http", "total_duration_of_retries"])) = before
      generalize hafter : List.map Override.path (if args.logFullResponseOnError then
        [flag ["sinks", "http", "log_full_response_on_error"] true] else []) = after
      have hsub : List.Sublist (before ++ after) sinkPaths := by
        subst hbefore hafter
        refine List.Sublist.append (List.Sublist.append (.refl _) ?_) ?_
        · cases args.totalDurationOfRetries with
          | none => exact List.nil_sublist _
          | some duration => exact .refl _
        · cases args.logFullResponseOnError with
          | false => exact List.nil_sublist _
          | true => exact .refl _
      refine prefixFree_middle (List.Pairwise.sublist hsub (by decide)) fun p hp q hq => ?_
      simp only [List.map_flatMap, List.mem_flatMap] at hq
      obtain ⟨option, -, hq⟩ := hq
      have hp := hsub.subset hp
      simp only [sinkPaths, List.cons_append, List.nil_append, List.mem_cons, List.not_mem_nil,
        or_false] at hp
      rcases List.mem_pair.mp hq with rfl | rfl <;>
        rcases hp with rfl | rfl | rfl | rfl | rfl <;>
          simp [verbatim, List.cons_prefix_cons]

theorem prefixFree_sources_sinks {os : List Override} {args : SendArgs}
    (hos : ∀ o ∈ os, ∃ rest, o.path = "sources" :: rest) :
    PrefixFree ((os ++ sinkOverrides args).map Override.path) ↔
      PrefixFree (os.map Override.path) ∧ args.HeadersOnce := by
  rw [List.map_append, prefixFree_append, prefixFree_sinkOverrides]
  refine and_congr_right fun _ => and_iff_left ?_
  intro p hp q hq
  obtain ⟨o, ho, rfl⟩ := List.mem_map.mp hp
  obtain ⟨o', ho', rfl⟩ := List.mem_map.mp hq
  obtain ⟨rest, hpath⟩ := hos o ho
  obtain ⟨rest', hpath'⟩ := sinkOverrides_path args o' ho'
  simp [hpath, hpath', List.cons_prefix_cons]

/-- Different keys below one path. -/
theorem prefixFree_keys (path keys : List String) :
    PrefixFree (keys.map fun key => path ++ [key]) ↔ keys.Nodup := by
  have hsymm : ∀ k k' : String, (¬k = k' ∧ ¬k' = k) ↔ ¬k = k' :=
    fun k k' => and_iff_left_of_imp fun h h' => h h'.symm
  rw [PrefixFree, List.pairwise_map, List.Nodup]
  simp [List.prefix_append_right_inj, List.cons_prefix_cons, hsymm]

theorem prefixFree_overrides (args : SendArgs) :
    PrefixFree ((overrides args).map Override.path) ↔
      (args.metadataOptions.map fun option => Text.trim option.1).Nodup ∧ args.HeadersOnce := by
  unfold overrides
  rw [prefixFree_sources_sinks]
  · have hkeys := prefixFree_keys ["sources", "cli", "extractor", "metadata"]
      (args.metadataOptions.map fun option => Text.trim option.1)
    rw [List.map_map] at hkeys
    rw [← hkeys, List.map_append, prefixFree_append, List.map_map]
    refine and_congr_left fun _ => ?_
    constructor
    · exact fun h => h.2.1
    · refine fun h => ⟨?_, h, ?_⟩
      · show PrefixFree [["sources", "cli", "extractor", "data"],
          ["sources", "cli", "extractor", "parser"]]
        decide
      · intro p hp q hq
        obtain ⟨option, -, rfl⟩ := List.mem_map.mp hq
        rcases List.mem_pair.mp hp with rfl | rfl <;>
          simp [escaped, verbatim, metadataOption, List.cons_prefix_cons]
  · intro o ho
    rcases List.mem_append.mp ho with ho | ho
    · rcases List.mem_pair.mp ho with rfl | rfl <;> exact ⟨_, rfl⟩
    · obtain ⟨option, -, rfl⟩ := List.mem_map.mp ho
      exact ⟨_, rfl⟩

/-! ### Groups -/

theorem keys_pushValue (key value : String) (map : List (String × List String)) :
    (pushValue key value map).map Prod.fst =
      if key ∈ map.map Prod.fst then map.map Prod.fst else map.map Prod.fst ++ [key] := by
  induction map with
  | nil => simp [pushValue]
  | cons group map ih =>
      obtain ⟨k, values⟩ := group
      by_cases hk : k = key
      · simp [pushValue, hk]
      · have hne : ¬key = k := fun h => hk h.symm
        simp only [pushValue, if_neg hk, List.map_cons, ih, List.mem_cons, hne, false_or]
        split <;> simp

theorem mem_pushValue (key value k v : String) (map : List (String × List String)) :
    (∃ values, (k, values) ∈ pushValue key value map ∧ v ∈ values) ↔
      (∃ values, (k, values) ∈ map ∧ v ∈ values) ∨ k = key ∧ v = value := by
  induction map with
  | nil => simp [pushValue]
  | cons group map ih =>
      obtain ⟨k', values⟩ := group
      by_cases hk : k' = key
      · subst hk
        simp only [pushValue, if_true, List.mem_cons, Prod.mk.injEq]
        constructor
        · rintro ⟨values', ⟨rfl, rfl⟩ | hmem, hv⟩
          · rcases List.mem_append.mp hv with hv | hv
            · exact .inl ⟨values, .inl ⟨rfl, rfl⟩, hv⟩
            · exact .inr ⟨rfl, List.mem_singleton.mp hv⟩
          · exact .inl ⟨values', .inr hmem, hv⟩
        · rintro (⟨values', ⟨rfl, rfl⟩ | hmem, hv⟩ | ⟨rfl, rfl⟩)
          · exact ⟨values' ++ [value], .inl ⟨rfl, rfl⟩, List.mem_append_left _ hv⟩
          · exact ⟨values', .inr hmem, hv⟩
          · exact ⟨values ++ [v], .inl ⟨rfl, rfl⟩, by simp⟩
      · simp only [pushValue, if_neg hk, List.mem_cons, Prod.mk.injEq, or_and_right, exists_or,
          ih, or_assoc]

/-- The groups of the metadata: one for each key, with what was given under it. -/
structure Groups (options : List (String × String)) (map : List (String × List String)) :
    Prop where
  nodup : (map.map Prod.fst).Nodup
  keys : ∀ k, k ∈ map.map Prod.fst ↔ ∃ option ∈ options, Text.trim option.1 = k
  values : ∀ k v, (∃ values, (k, values) ∈ map ∧ v ∈ values) ↔
    ∃ option ∈ options, k = Text.trim option.1 ∧ v = option.2

theorem metaMap_groups (options : List (String × String)) :
    Groups options (metaMap options) := by
  induction options using List.reverseRecOn with
  | nil => constructor <;> simp [metaMap]
  | append_singleton options option ih =>
      have hpush : metaMap (options ++ [option]) =
          pushValue (Text.trim option.1) option.2 (metaMap options) := by
        simp [metaMap]
      rw [hpush]
      constructor
      · rw [keys_pushValue]
        split
        · exact ih.nodup
        · rename_i hnew
          refine List.nodup_append.mpr ⟨ih.nodup, List.pairwise_singleton _ _, ?_⟩
          rintro k hk k' hk' rfl
          exact hnew (List.mem_singleton.mp hk' ▸ hk)
      · intro k
        have hkeys := ih.keys k
        rw [keys_pushValue]
        split
        · rename_i hknown
          rw [hkeys]
          simp only [List.mem_append, or_and_right, exists_or, List.mem_singleton,
            exists_eq_left]
          refine (or_iff_left_of_imp ?_).symm
          rintro rfl
          exact (ih.keys _).mp hknown
        · rw [List.mem_append, hkeys, List.mem_singleton]
          simp only [List.mem_append, or_and_right, exists_or, List.mem_singleton,
            exists_eq_left]
          rw [eq_comm (a := k)]
      · intro k v
        rw [mem_pushValue, ih.values]
        simp [or_and_right, exists_or]

/-- The paths of a run that no argument has a part in. -/
def runPaths (runType : String) : List (List String) :=
  [["sources", runType, "enabled"], ["sources", "cli", "enabled"]] ++
  [["sources", runType, "extractor", "command"]] ++
  [["sources", runType, "extractor", "data_globs"]] ++
  [["sources", runType, "extractor", "no_data"]] ++
  [["sources", runType, "extractor", "fail_on_collector_error"]]

theorem runOptions_paths (args : SendArgs) (runType : String) :
    List.Sublist ((runOptions args runType).map Override.path) (runPaths runType) := by
  unfold runOptions
  simp only [List.map_append]
  refine List.Sublist.append (List.Sublist.append (List.Sublist.append (List.Sublist.append
    (.refl _) ?_) ?_) ?_) ?_
  all_goals split <;> simp [jsonList, flag]

theorem prefixFree_runOptions (args : SendArgs) (runType : String) :
    PrefixFree ((runOptions args runType).map Override.path) ↔ runType ≠ "cli" := by
  constructor
  · rintro hfree rfl
    have hpair : List.Sublist [["sources", "cli", "enabled"], ["sources", "cli", "enabled"]]
        ((runOptions args "cli").map Override.path) := by
      simp [runOptions, flag]
    exact absurd (List.Pairwise.sublist hpair hfree) (by decide)
  · intro hcli
    refine List.Pairwise.sublist (runOptions_paths args runType) ?_
    have hcli' := Ne.symm hcli
    simp [runPaths, List.cons_prefix_cons, hcli, hcli']

theorem metadataOverride_path (runType : String) (group : String × List String) :
    (metadataOverride runType group).path = metadataPath runType group.1 := by
  obtain ⟨key, values⟩ := group
  rcases values with _ | ⟨value, _ | ⟨value', values⟩⟩ <;> rfl

theorem prefixFree_runOverrides (args : SendArgs) (runType : String) :
    PrefixFree ((runOverrides args runType).map Override.path) ↔
      runType ≠ "cli" ∧ args.HeadersOnce := by
  unfold runOverrides
  rw [prefixFree_sources_sinks]
  · refine and_congr_left fun _ => ?_
    have hgroups := prefixFree_keys
      ["sources", runType, "extractor", "metadata", "run", "overrides"]
      ((metaMap args.metadataOptions).map Prod.fst)
    rw [List.map_map] at hgroups
    have hpaths : (metaMap args.metadataOptions).map (Override.path ∘ metadataOverride runType) =
        (metaMap args.metadataOptions).map
          ((fun key => ["sources", runType, "extractor", "metadata", "run", "overrides"] ++ [key]) ∘
            Prod.fst) :=
      List.map_congr_left fun group _ => metadataOverride_path runType group
    rw [List.map_append, List.map_map, prefixFree_append, prefixFree_runOptions, hpaths]
    constructor
    · exact fun h => h.1
    · refine fun hcli => ⟨hcli, hgroups.mpr (metaMap_groups args.metadataOptions).nodup, ?_⟩
      intro p hp q hq
      obtain ⟨group, -, rfl⟩ := List.mem_map.mp hq
      have hp := (runOptions_paths args runType).subset hp
      simp only [runPaths, List.cons_append, List.nil_append, List.mem_cons, List.not_mem_nil,
        or_false] at hp
      rcases hp with rfl | rfl | rfl | rfl | rfl | rfl <;> simp [List.cons_prefix_cons]
  · intro o ho
    rcases List.mem_append.mp ho with ho | ho
    · have hpath := (runOptions_paths args runType).subset (List.mem_map_of_mem ho)
      simp only [runPaths, List.cons_append, List.nil_append, List.mem_cons, List.not_mem_nil,
        or_false] at hpath
      rcases hpath with hpath | hpath | hpath | hpath | hpath | hpath <;> exact ⟨_, hpath⟩
    · obtain ⟨group, -, rfl⟩ := List.mem_map.mp ho
      exact ⟨_, metadataOverride_path runType group⟩

end CdvizCollector.Tools.Send
