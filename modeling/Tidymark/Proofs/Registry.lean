import Mathlib.Data.String.Basic
import Tidymark.Proofs.Answer
import Tidymark.Proofs.Config.Setting
import Tidymark.Proofs.Dictionary
import Tidymark.Registry
import Tidymark.Rules.HardTabs
import Tidymark.Rules.HashSpace
import Tidymark.Rules.TrailingSpaces

/-! # Which settings take effect

A registry holds its rules under their ids. What a configuration says about a rule counts if it says
so under the id of the rule, as the rule spells it, or under its name. -/
namespace Tidymark

variable {m : Type → Type} {rule : Rule m}

namespace Registry

/-- The rules stand under their ids, in the order of these. -/
structure WellFormed (r : Registry m) : Prop where
  sorted : Dictionary.Sorted r.rules
  key_eq : ∀ e ∈ r.rules, e.1 = e.2.id

theorem WellFormed.register {r : Registry m} (h : r.WellFormed) (rule : Rule m) :
    (r.register rule).WellFormed where
  sorted := h.sorted.insert _ _
  key_eq e he := by
    rcases Dictionary.mem_of_mem_insert he with rfl | he
    · rfl
    · exact h.key_eq e he

theorem wellFormed_ofList (rules : List (Rule m)) : (ofList rules).WellFormed := by
  have hregister : ∀ (rules : List (Rule m)) (r : Registry m), r.WellFormed →
      (rules.foldl register r).WellFormed := by
    intro rules
    induction rules with
    | nil => exact fun r h => h
    | cons rule rules ih => exact fun r h => ih (r.register rule) (h.register rule)
  exact hregister rules empty ⟨List.Pairwise.nil, nofun⟩

variable {r : Registry m} {config : Config} {active : List (ActiveRule m)}

/-- A rule that is looked up is there, under its id. -/
theorem WellFormed.mem_of_get? (h : r.WellFormed) {key : String} (hrule : r.get? key = some rule) :
    (rule.id, rule) ∈ r.rules := by
  have hmem : ∃ key, (key, rule) ∈ r.rules := by
    rcases Option.or_eq_some_iff.mp hrule with hid | ⟨-, hfind⟩
    · exact ⟨key, Dictionary.mem_of_get? hid⟩
    · obtain ⟨e, he, rfl⟩ := List.mem_map.mp (List.mem_of_find?_eq_some hfind)
      exact ⟨e.1, he⟩
  obtain ⟨key, hmem⟩ := hmem
  exact (h.key_eq _ hmem : key = rule.id) ▸ hmem

theorem WellFormed.get?_id (h : r.WellFormed) (hmem : (rule.id, rule) ∈ r.rules) :
    r.get? rule.id = some rule := by
  rw [get?, h.sorted.get?_of_mem hmem]
  rfl

theorem WellFormed.pairwise_ids (h : r.WellFormed) :
    (r.toList.map Rule.id).Pairwise (· < ·) := by
  have hkeys : r.toList.map Rule.id = r.ids := by
    rw [toList, Dictionary.values, ids, Dictionary.keys, List.map_map]
    exact List.map_congr_left fun e he => (h.key_eq e he).symm
  rw [hkeys, ids, Dictionary.keys, List.pairwise_map]
  exact h.sorted

theorem WellFormed.nodup_ids (h : r.WellFormed) : (r.toList.map Rule.id).Nodup :=
  h.pairwise_ids.imp ne_of_lt

def configured (rule : Rule m) (setting : RuleSetting) : Option (ActiveRule m) :=
  if setting.enabled then
    some ⟨rule, setting.severity.getD rule.severity, setting.options, setting.fix⟩
  else none

theorem exists_setting_of_activate {option : RuleOption} {activated : Option (ActiveRule m)}
    (hoption : config.ruleOption? rule.id rule.name = some option)
    (h : activate config rule = .ok activated) :
    ∃ setting, option.setting = .ok setting ∧ activated = configured rule setting := by
  rw [activate, hoption] at h
  obtain ⟨setting, hsetting, h⟩ := bind_eq_ok_iff.mp h
  exact ⟨setting, hsetting, (Except.ok.inj h).symm⟩

theorem activate_of_none (hoption : config.ruleOption? rule.id rule.name = none) :
    activate config rule = .ok (if rule.enabledByDefault then some (.ofRule rule) else none) := by
  rw [activate, hoption]

theorem id_of_activate {activated : Option (ActiveRule m)}
    (h : activate config rule = .ok activated) : ∀ a ∈ activated, a.id = rule.id := by
  intro a ha
  cases hoption : config.ruleOption? rule.id rule.name with
  | none =>
    rw [activate_of_none hoption] at h
    obtain rfl := Except.ok.inj h
    split at ha
    · rw [← Option.some.inj ha]
      rfl
    · cases ha
  | some option =>
    obtain ⟨setting, -, rfl⟩ := exists_setting_of_activate hoption h
    unfold configured at ha
    split at ha
    · rw [← Option.some.inj ha]
      rfl
    · cases ha

theorem filter_activated {activated : Option (ActiveRule m)}
    (h : activate config rule = .ok activated) (id : String) :
    activated.toList.filter (·.id == id) = if rule.id = id then activated.toList else [] := by
  have hids := id_of_activate h
  cases activated with
  | none => simp
  | some a => simp [List.filter_cons, hids a rfl]

theorem filter_activateAll_of_not_mem {rules : List (Rule m)} {id : String}
    (h : activateAll config rules = .ok active) (hid : id ∉ rules.map Rule.id) :
    active.filter (·.id == id) = [] := by
  induction rules generalizing active with
  | nil =>
    obtain rfl := Except.ok.inj h
    rfl
  | cons rule rules ih =>
    obtain ⟨activated, hrule, h⟩ := bind_eq_ok_iff.mp h
    obtain ⟨others, hothers, h⟩ := bind_eq_ok_iff.mp h
    obtain rfl := Except.ok.inj h
    rw [List.map_cons, List.mem_cons, not_or] at hid
    rw [List.filter_append, filter_activated hrule, if_neg (Ne.symm hid.1), ih hothers hid.2]
    rfl

/-- A rule is activated on its own. -/
theorem exists_activate {rules : List (Rule m)} (hids : (rules.map Rule.id).Nodup)
    (h : activateAll config rules = .ok active) (hmem : rule ∈ rules) :
    ∃ activated, activate config rule = .ok activated ∧
      active.filter (·.id == rule.id) = activated.toList := by
  induction rules generalizing active with
  | nil => cases hmem
  | cons first rules ih =>
    obtain ⟨activated, hfirst, h⟩ := bind_eq_ok_iff.mp h
    obtain ⟨others, hothers, h⟩ := bind_eq_ok_iff.mp h
    obtain rfl := Except.ok.inj h
    obtain ⟨hnew, hids⟩ := List.nodup_cons.mp hids
    rw [List.filter_append, filter_activated hfirst]
    rcases List.mem_cons.mp hmem with rfl | hmem
    · refine ⟨activated, hfirst, ?_⟩
      rw [if_pos rfl, filter_activateAll_of_not_mem hothers hnew, List.append_nil]
    · have hne : first.id ≠ rule.id := fun hsame => hnew (hsame ▸ List.mem_map_of_mem hmem)
      rw [if_neg hne, List.nil_append]
      exact ih hids hothers hmem

theorem activateAll_of_resolve (h : r.resolve config = .ok active) :
    activateAll config r.toList = .ok active := by
  unfold resolve at h
  split at h
  · cases h
  · exact h

/-- Every key of the configuration stands for a rule. -/
def Knows (r : Registry m) (config : Config) : Prop :=
  ∀ key ∈ Dictionary.keys config.rules, (r.get? key).isSome = true

theorem exists_activate_of_allowed (h : config.Allowed) (rule : Rule m) :
    ∃ activated, activate config rule = .ok activated := by
  cases hoption : config.ruleOption? rule.id rule.name with
  | none => exact ⟨_, activate_of_none hoption⟩
  | some option =>
    obtain ⟨setting, hsetting, -⟩ := (h.of_ruleOption? hoption).exists_setting
    refine ⟨configured rule setting, ?_⟩
    rw [activate, hoption]
    exact bind_eq_ok_iff.mpr ⟨setting, hsetting, rfl⟩

theorem exists_activateAll (h : config.Allowed) (rules : List (Rule m)) :
    ∃ active, activateAll config rules = .ok active := by
  induction rules with
  | nil => exact ⟨[], rfl⟩
  | cons rule rules ih =>
    obtain ⟨activated, hactivated⟩ := exists_activate_of_allowed h rule
    obtain ⟨others, hothers⟩ := ih
    refine ⟨activated.toList ++ others, ?_⟩
    rw [activateAll, hactivated, hothers]
    rfl

/-- A configuration with keys and settings as they should be resolves. -/
theorem Knows.exists_resolve (hknows : r.Knows config) (h : config.Allowed) :
    ∃ active, r.resolve config = .ok active := by
  have hfind : (Dictionary.keys config.rules).find? (fun key => (r.get? key).isNone) = none := by
    refine List.find?_eq_none.mpr fun key hkey => ?_
    simpa [Option.isSome_iff_ne_none] using hknows key hkey
  obtain ⟨active, hactive⟩ := exists_activateAll h r.toList
  refine ⟨active, ?_⟩
  rw [resolve, hfind]
  exact hactive

/-- A rule with a setting takes part if both switches of the setting are on. -/
theorem WellFormed.mem_resolve_iff (h : r.WellFormed) (hresolve : r.resolve config = .ok active)
    (hmem : rule ∈ r.toList) {option : RuleOption} (hallowed : option.Allowed)
    (hoption : config.ruleOption? rule.id rule.name = some option) :
    (∃ a ∈ active, a.rule = rule) ↔ option.isEnabled = true ∧ option.isMuted = false := by
  obtain ⟨activated, hactivate, hfilter⟩ :=
    exists_activate h.nodup_ids (activateAll_of_resolve hresolve) hmem
  obtain ⟨setting, hsetting, rfl⟩ := exists_setting_of_activate hoption hactivate
  obtain ⟨setting', hsetting', henabled⟩ := hallowed.exists_setting
  obtain rfl := Except.ok.inj (hsetting.symm.trans hsetting')
  have hon : setting.enabled = true ↔ option.isEnabled = true ∧ option.isMuted = false := by
    rw [henabled, Bool.and_eq_true, Bool.not_eq_true']
  rw [← hon]
  constructor
  · rintro ⟨a, ha, rfl⟩
    have hkept : a ∈ active.filter (·.id == a.rule.id) :=
      List.mem_filter.mpr ⟨ha, by simp [ActiveRule.id]⟩
    by_contra hoff
    simp [hfilter, configured, hoff] at hkept
  · intro henabled
    have hkept : (⟨rule, setting.severity.getD rule.severity, setting.options, setting.fix⟩ :
        ActiveRule m) ∈ active.filter (·.id == rule.id) := by
      simp [hfilter, configured, henabled]
    exact ⟨_, List.mem_of_mem_filter hkept, rfl⟩

/-- What is resolved for a rule depends on its option only. -/
theorem WellFormed.filter_resolve_congr (h : r.WellFormed) {other : Config}
    {before : List (ActiveRule m)} (hbefore : r.resolve other = .ok before)
    (hresolve : r.resolve config = .ok active) (hmem : rule ∈ r.toList)
    (hoption : config.ruleOption? rule.id rule.name = other.ruleOption? rule.id rule.name) :
    active.filter (·.id == rule.id) = before.filter (·.id == rule.id) := by
  obtain ⟨was, hwas, hfilter⟩ :=
    exists_activate h.nodup_ids (activateAll_of_resolve hbefore) hmem
  obtain ⟨activated, hactivate, hfilter'⟩ :=
    exists_activate h.nodup_ids (activateAll_of_resolve hresolve) hmem
  rw [activate, hoption] at hactivate
  rw [hfilter, hfilter', Except.ok.inj (hactivate.symm.trans hwas)]

/-- What a configuration says about a rule under one key only, if this is its id or its name. -/
theorem WellFormed.ruleOption?_eq (h : r.WellFormed) {key : String} {option : RuleOption}
    (hoption : Dictionary.get? key config.rules = some option) (hrule : r.get? key = some rule)
    (hexact : key = rule.id ∨ key = rule.name)
    (honly : ∀ other ∈ Dictionary.keys config.rules, r.get? other = some rule → other = key) :
    config.ruleOption? rule.id rule.name = some option := by
  unfold Config.ruleOption?
  cases hid : Dictionary.get? rule.id config.rules with
  | some other =>
    have hkey : rule.id = key :=
      honly rule.id (List.mem_map_of_mem (Dictionary.mem_of_get? hid))
        (h.get?_id (h.mem_of_get? hrule))
    rw [hkey, hoption] at hid
    rw [← hid]
    rfl
  | none =>
    rcases hexact with rfl | rfl
    · exact nomatch hid.symm.trans hoption
    · exact hoption

/-- A setting takes effect if it is given under the id of a rule or under its name, and under
nothing else that the rule is looked up by. -/
theorem filter_resolve {rules : List (Rule m)} {key : String} {option : RuleOption}
    (hresolve : (ofList rules).resolve config = .ok active)
    (hoption : Dictionary.get? key config.rules = some option)
    (hrule : (ofList rules).get? key = some rule) (hexact : key = rule.id ∨ key = rule.name)
    (honly : ∀ other ∈ Dictionary.keys config.rules, (ofList rules).get? other = some rule →
      other = key) :
    ∃ setting, option.setting = .ok setting ∧
      active.filter (·.id == rule.id) =
        if setting.enabled then
          [⟨rule, setting.severity.getD rule.severity, setting.options, setting.fix⟩]
        else [] := by
  have hwf := wellFormed_ofList rules
  have hmem : rule ∈ (ofList rules).toList := List.mem_map_of_mem (hwf.mem_of_get? hrule)
  obtain ⟨activated, hactivate, hfilter⟩ :=
    exists_activate hwf.nodup_ids (activateAll_of_resolve hresolve) hmem
  obtain ⟨setting, hsetting, rfl⟩ := exists_setting_of_activate
    (hwf.ruleOption?_eq hoption hrule hexact honly) hactivate
  refine ⟨setting, hsetting, hfilter.trans ?_⟩
  unfold configured
  split <;> rfl

/-- A rule is only a warning if its name says so. -/
theorem filter_resolve_name :
    let rule : Rule Id := Rules.HardTabs.rule
    let rules : List (Rule Id) := [Rules.HashSpace.rule, rule]
    let config : Config := { Config.default with rules := [("no-hard-tabs", .severity "warning")] }
    let active : List (ActiveRule Id) :=
      [⟨rule, .warning, .empty, true⟩, .ofRule Rules.HashSpace.rule]
    (ofList rules).resolve config = .ok active ∧ (ofList rules).get? "no-hard-tabs" = some rule ∧
      active.filter (·.id == "MD010") = [⟨rule, .warning, .empty, true⟩] := by
  have hresolve : (ofList [Rules.HashSpace.rule, Rules.HardTabs.rule] : Registry Id).resolve
      { Config.default with rules := [("no-hard-tabs", .severity "warning")] } =
        .ok [⟨Rules.HardTabs.rule, .warning, .empty, true⟩, .ofRule Rules.HashSpace.rule] := rfl
  have hrule : (ofList [Rules.HashSpace.rule, Rules.HardTabs.rule] : Registry Id).get?
      "no-hard-tabs" = some Rules.HardTabs.rule := rfl
  obtain ⟨setting, hsetting, hfilter⟩ := filter_resolve hresolve rfl hrule (.inr rfl)
    (by simp [Dictionary.keys])
  obtain rfl := Except.ok.inj hsetting
  exact ⟨hresolve, hrule, hfilter⟩

/-- An id in lower case is looked up, but what stands under it has no effect. -/
theorem resolve_lowercase :
    let rule : Rule Id := Rules.TrailingSpaces.rule
    let config : Config := { Config.default with rules := [("md009", .enabled false)] }
    (ofList [rule]).get? "md009" = some rule ∧
      RuleOption.setting (.enabled false) = .ok ⟨false, none, true, .empty⟩ ∧
      (ofList [rule]).resolve config = .ok [.ofRule rule] :=
  ⟨rfl, rfl, rfl⟩

end Registry
end Tidymark
