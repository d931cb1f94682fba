import Tidymark.Proofs.Registry

/-! # What a configuration resolves to

A value that passes the schema and is read holds settings that can all be interpreted. So resolving
fails for one reason only, a key that stands for no rule. Otherwise each rule takes part or not by
the option that counts for it, and those that do stand in the order of their ids. -/
namespace Tidymark

variable {m : Type → Type}

namespace Config

/-- A configuration turns a rule on: with the option under its id, or else with the one under its
name, or else because the rule is on by default. -/
def TurnsOn (config : Config) (rule : Rule m) : Prop :=
  match (Dictionary.get? rule.id config.rules).or (Dictionary.get? rule.name config.rules) with
  | some option => ∃ setting, option.setting = .ok setting ∧ setting.enabled = true
  | none => rule.enabledByDefault = true

end Config

namespace Registry

variable {r : Registry m} {rule : Rule m} {rules : List (Rule m)} {config : Config}
variable {active : List (ActiveRule m)} {a : ActiveRule m}

theorem configured_eq_some_iff {setting : RuleSetting} : configured rule setting = some a ↔
    setting.enabled = true ∧
      a = ⟨rule, setting.severity.getD rule.severity, setting.options, setting.fix⟩ := by
  unfold configured
  grind

theorem rule_of_activate (h : activate config rule = .ok (some a)) : a.rule = rule := by
  cases hoption : config.ruleOption? rule.id rule.name with
  | none =>
    rw [activate_of_none hoption, Except.ok.injEq] at h
    split at h
    · rw [← Option.some.inj h]
      rfl
    · cases h
  | some option =>
    obtain ⟨setting, -, h⟩ := exists_setting_of_activate hoption h
    rw [(configured_eq_some_iff.mp h.symm).2]

/-- A rule is activated if and only if the configuration turns it on. -/
theorem exists_activate_iff : (∃ a, activate config rule = .ok (some a)) ↔ config.TurnsOn rule := by
  unfold Config.TurnsOn
  cases hoption : config.ruleOption? rule.id rule.name with
  | none =>
    rw [activate_of_none hoption]
    rw [Config.ruleOption?] at hoption
    simp [hoption]
  | some option =>
    have hcounts : (Dictionary.get? rule.id config.rules).or
        (Dictionary.get? rule.name config.rules) = some option := hoption
    rw [hcounts]
    constructor
    · rintro ⟨a, ha⟩
      obtain ⟨setting, hsetting, hconfigured⟩ := exists_setting_of_activate hoption ha
      exact ⟨setting, hsetting, (configured_eq_some_iff.mp hconfigured.symm).1⟩
    · rintro ⟨setting, hsetting, hon⟩
      refine ⟨⟨rule, setting.severity.getD rule.severity, setting.options, setting.fix⟩, ?_⟩
      rw [activate, hoption]
      refine bind_eq_ok_iff.mpr ⟨setting, hsetting, ?_⟩
      rw [if_pos hon]
      rfl

theorem mem_activateAll_iff (h : activateAll config rules = .ok active) :
    a ∈ active ↔ ∃ rule ∈ rules, activate config rule = .ok (some a) := by
  induction rules generalizing active with
  | nil =>
    obtain rfl := Except.ok.inj h
    simp
  | cons rule rules ih =>
    obtain ⟨activated, hrule, h⟩ := bind_eq_ok_iff.mp h
    obtain ⟨others, hothers, h⟩ := bind_eq_ok_iff.mp h
    obtain rfl := Except.ok.inj h
    simp [hrule, ih hothers]

/-- The rules that take part are some of all rules, in the same order. -/
theorem map_id_sublist_of_activateAll (h : activateAll config rules = .ok active) :
    (active.map ActiveRule.id).Sublist (rules.map Rule.id) := by
  induction rules generalizing active with
  | nil =>
    obtain rfl := Except.ok.inj h
    exact .slnil
  | cons rule rules ih =>
    obtain ⟨activated, hrule, h⟩ := bind_eq_ok_iff.mp h
    obtain ⟨others, hothers, h⟩ := bind_eq_ok_iff.mp h
    obtain rfl := Except.ok.inj h
    cases activated with
    | none => exact (ih hothers).cons _
    | some a =>
      have hid : a.id = rule.id := congrArg Rule.id (rule_of_activate hrule)
      rw [Option.toList_some, List.singleton_append, List.map_cons, List.map_cons, hid]
      exact (ih hothers).cons_cons _

theorem WellFormed.pairwise_resolve (h : r.WellFormed) (hresolve : r.resolve config = .ok active) :
    active.Pairwise fun a b => a.id < b.id := by
  rw [← List.pairwise_map]
  exact h.pairwise_ids.sublist (map_id_sublist_of_activateAll (activateAll_of_resolve hresolve))

/-- A rule of the registry takes part if and only if the configuration turns it on. -/
theorem mem_resolve_iff_turnsOn (h : r.resolve config = .ok active) (hmem : rule ∈ r.toList) :
    (∃ a ∈ active, a.rule = rule) ↔ config.TurnsOn rule := by
  have hactive := activateAll_of_resolve h
  rw [← exists_activate_iff]
  constructor
  · rintro ⟨a, ha, rfl⟩
    obtain ⟨rule, -, hactivate⟩ := (mem_activateAll_iff hactive).mp ha
    exact ⟨a, rule_of_activate hactivate ▸ hactivate⟩
  · rintro ⟨a, hactivate⟩
    exact ⟨a, (mem_activateAll_iff hactive).mpr ⟨rule, hmem, hactivate⟩, rule_of_activate hactivate⟩

theorem rule_mem_of_resolve (h : r.resolve config = .ok active) (ha : a ∈ active) :
    a.rule ∈ r.toList := by
  obtain ⟨rule, hmem, hactivate⟩ := (mem_activateAll_iff (activateAll_of_resolve h)).mp ha
  exact rule_of_activate hactivate ▸ hmem

theorem knows_of_resolve (h : r.resolve config = .ok active) : r.Knows config := by
  unfold resolve at h
  split at h
  · cases h
  · rename_i hfind
    intro key hkey
    simpa [Option.isSome_iff_ne_none] using List.find?_eq_none.mp hfind key hkey

end Registry

namespace Config

open Registry (ofList Knows)

variable {value : Json} {config : Config}

/-- Every setting of a configuration that was read can be interpreted, and the configuration
resolves if and only if it names no unknown rule: to the rules of the registry that it turns on, in
the order of their ids. -/
theorem exists_resolve_iff_knows (rules : List (Rule m)) (h : check value = .ok config) :
    (∀ e ∈ config.rules, ∃ setting, e.2.setting = .ok setting) ∧
      ((∃ active, (ofList rules).resolve config = .ok active) ↔
        ∀ key ∈ Dictionary.keys config.rules, ((ofList rules).get? key).isSome = true) ∧
      ∀ active, (ofList rules).resolve config = .ok active →
        active.Pairwise (fun a b => a.id < b.id) ∧ (∀ a ∈ active, a.rule ∈ (ofList rules).toList) ∧
        ∀ rule ∈ (ofList rules).toList, (∃ a ∈ active, a.rule = rule) ↔ config.TurnsOn rule := by
  have hallowed := allowed_of_check h
  refine ⟨fun e he => ?_, ⟨fun ⟨active, hactive⟩ => ?_, fun hknows => ?_⟩, fun active hactive => ?_⟩
  · obtain ⟨setting, hsetting, -⟩ := (hallowed e he).exists_setting
    exact ⟨setting, hsetting⟩
  · exact Registry.knows_of_resolve hactive
  · exact Knows.exists_resolve hknows hallowed
  · exact ⟨(Registry.wellFormed_ofList rules).pairwise_resolve hactive,
      fun a ha => Registry.rule_mem_of_resolve hactive ha,
      fun rule hmem => Registry.mem_resolve_iff_turnsOn hactive hmem⟩

def mixedRules : List (Rule Id) :=
  [Rules.HardTabs.rule, Rules.HashSpace.rule, Rules.TrailingSpaces.rule]

/-- A rule is off under its id, one is on under its name, and one is on because its id in lower
case does not count. -/
theorem exists_resolve_iff_knows_mixed :
    let value : Json := .obj [("rules", .obj [("MD010", .bool false), ("md018", .bool false),
      ("no-hard-tabs", .str "warning"), ("no-trailing-spaces", .obj [("severity", .str "info")])])]
    let config : Config := { Config.default with
      rules := [("MD010", .enabled false), ("md018", .enabled false),
        ("no-hard-tabs", .severity "warning"),
        ("no-trailing-spaces", .options (.obj [("severity", .str "info")]))] }
    check value = .ok config ∧
      ∃ active, (ofList mixedRules).resolve config = .ok active ∧
        active.Pairwise (fun a b => a.id < b.id) ∧
        (∃ a ∈ active, a.rule = Rules.TrailingSpaces.rule) ∧
        (∃ a ∈ active, a.rule = Rules.HashSpace.rule) ∧
        ¬ ∃ a ∈ active, a.rule = Rules.HardTabs.rule := by
  intro value config
  have hcheck : check value = .ok config := rfl
  have hrules : (ofList mixedRules).toList =
      [Rules.TrailingSpaces.rule, Rules.HardTabs.rule, Rules.HashSpace.rule] := rfl
  obtain ⟨-, hiff, hresolved⟩ := exists_resolve_iff_knows mixedRules hcheck
  obtain ⟨active, hactive⟩ := hiff.mpr fun key hkey => by
    have hkeys : key = "MD010" ∨ key = "md018" ∨ key = "no-hard-tabs" ∨
        key = "no-trailing-spaces" := by simpa [config, Dictionary.keys] using hkey
    rcases hkeys with rfl | rfl | rfl | rfl <;> rfl
  obtain ⟨hsorted, -, hon⟩ := hresolved active hactive
  refine ⟨hcheck, active, hactive, hsorted, ?_, ?_, fun htabs => ?_⟩
  · exact (hon _ (by simp [hrules])).mpr ⟨_, rfl, rfl⟩
  · exact (hon Rules.HashSpace.rule (by simp [hrules])).mpr rfl
  · obtain ⟨setting, hsetting, henabled⟩ := (hon _ (by simp [hrules])).mp htabs
    obtain rfl := Except.ok.inj hsetting
    cases henabled

end Config
end Tidymark
