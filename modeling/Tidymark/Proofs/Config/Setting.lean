import Mathlib.Data.String.Basic
import Tidymark.Config.Reader
import Tidymark.Proofs.Answer
import Tidymark.Proofs.Dictionary

/-! # Settings that the schema allows

A configuration that was read holds only settings that the schema allows. Each of them can be
interpreted, and whether it leaves its rule on can be told from the setting alone: an object of
options has two switches for that, its field `enabled` and the severity `off`. -/
namespace Tidymark

namespace RuleOption

/-- The settings that the schema allows. -/
inductive Allowed : RuleOption → Prop
  | enabled (on : Bool) : Allowed (.enabled on)
  | severity {name : String} (h : Config.isSeverity (.str name) = true) : Allowed (.severity name)
  | options {fields : List (String × Json)} (h : Config.isRuleSetting (.obj fields) = true) :
      Allowed (.options (.obj fields))

/-- Whether an object of options turns its rule off by its severity. -/
def isMuted : RuleOption → Bool
  | options value => (value.get? "severity").bind Json.asStr? == some "off"
  | _ => false

variable {option : RuleOption} {on : Bool}

theorem allowed_ofJson {value : Json} (h : Config.isRuleSetting value = true) :
    (ofJson value).Allowed := by
  cases value with
  | bool on => exact .enabled on
  | str name => exact .severity h
  | obj fields => exact .options h
  | null => cases h
  | int n => cases h
  | decimal d => cases h
  | arr items => cases h

theorem exists_readSeverity {name : String} (h : Config.isSeverity (.str name) = true)
    (hoff : name ≠ "off") : ∃ severity, readSeverity name = .ok severity := by
  have hname : name = "error" ∨ name = "warning" ∨ name = "info" := by
    simp only [Config.isSeverity, Bool.or_eq_true, beq_iff_eq] at h
    simpa [hoff, or_assoc] using h
  rcases hname with rfl | rfl | rfl
  · exact ⟨.error, rfl⟩
  · exact ⟨.warning, rfl⟩
  · exact ⟨.info, rfl⟩

theorem isSeverity_of_asStr? {fields : List (String × Json)} {name : String}
    (h : Config.isRuleSetting (.obj fields) = true)
    (hname : ((Json.obj fields).get? "severity").bind Json.asStr? = some name) :
    Config.isSeverity (.str name) = true := by
  obtain ⟨value, hvalue, hstr⟩ := Option.bind_eq_some_iff.mp hname
  have hseverity : Config.isSeverity value = true := by
    simp only [Config.isRuleSetting, Bool.and_eq_true, hvalue, Option.all_some] at h
    exact h.1.2
  cases value with
  | str s =>
    obtain rfl := Option.some.inj hstr
    exact hseverity
  | _ => cases hstr

/-- Interpreting a setting that the schema allows does not fail, and both switches count. -/
theorem Allowed.exists_setting (h : option.Allowed) :
    ∃ setting, option.setting = .ok setting ∧
      setting.enabled = (option.isEnabled && !option.isMuted) := by
  cases h with
  | enabled on => exact ⟨_, rfl, (Bool.and_true on).symm⟩
  | @severity name h =>
    by_cases hoff : name = "off"
    · subst hoff
      exact ⟨_, rfl, rfl⟩
    · obtain ⟨severity, hread⟩ := exists_readSeverity h hoff
      refine ⟨⟨true, some severity, true, .empty⟩, ?_, ?_⟩
      · simp [setting, hoff, hread, bind, Except.bind, pure, Except.pure]
      · simp [isEnabled, isMuted, hoff]
  | @options fields h =>
    unfold setting
    dsimp only
    split
    · rename_i hnone
      refine ⟨_, rfl, ?_⟩
      simp [isMuted, hnone]
    · rename_i hsome
      refine ⟨_, rfl, ?_⟩
      simp [isMuted, hsome]
    · rename_i name hne hsome
      have hoff : name ≠ "off" := hne
      obtain ⟨severity, hread⟩ := exists_readSeverity (isSeverity_of_asStr? h hsome) hoff
      rw [hread]
      refine ⟨_, rfl, ?_⟩
      simp [isMuted, hsome, hoff]

theorem Allowed.withEnabled (h : option.Allowed) (on : Bool) : (option.withEnabled on).Allowed := by
  cases h with
  | enabled was =>
    simp only [RuleOption.withEnabled]
    split
    · exact .enabled was
    · exact .enabled on
  | severity h =>
    simp only [RuleOption.withEnabled]
    split
    · exact .severity h
    · exact .enabled on
  | options h =>
    refine .options ?_
    simp only [Config.isRuleSetting, Json.get?, Bool.and_eq_true] at h ⊢
    rw [Dictionary.get?_insert_self, Dictionary.get?_insert_of_ne (by decide),
      Dictionary.get?_insert_of_ne (by decide)]
    exact ⟨⟨rfl, h.1.2⟩, h.2⟩

theorem Allowed.isEnabled_withEnabled (h : option.Allowed) (on : Bool) :
    (option.withEnabled on).isEnabled = on := by
  cases h with
  | enabled was => cases on <;> cases was <;> rfl
  | @severity name h =>
    by_cases hoff : name = "off" <;> cases on <;> simp [RuleOption.withEnabled, isEnabled, hoff]
  | options h =>
    simp [RuleOption.withEnabled, isEnabled, Json.get?, Json.asBool?, Dictionary.get?_insert_self]

/-- Turning a rule on or off leaves the severity in an object of options as it is. -/
theorem Allowed.isMuted_withEnabled (h : option.Allowed) (on : Bool) :
    (option.withEnabled on).isMuted = option.isMuted := by
  cases h with
  | enabled was => cases on <;> cases was <;> rfl
  | @severity name h =>
    simp only [RuleOption.withEnabled]
    split <;> rfl
  | options h =>
    simp only [RuleOption.withEnabled, isMuted, Json.get?]
    rw [Dictionary.get?_insert_of_ne (by decide)]

/-- Doing it twice is doing it once. -/
theorem withEnabled_withEnabled (on : Bool) (option : RuleOption) :
    (option.withEnabled on).withEnabled on = option.withEnabled on := by
  cases option with
  | enabled was => cases on <;> cases was <;> rfl
  | severity name =>
    cases on with
    | false => rfl
    | true =>
      by_cases hoff : name = "off" <;> simp [RuleOption.withEnabled, isEnabled, hoff]
  | options value =>
    cases value with
    | obj fields => simp only [RuleOption.withEnabled, Dictionary.insert_insert]
    | _ => cases on <;> rfl

end RuleOption

namespace Config

/-- All settings of rules are ones that the schema allows. -/
def Allowed (c : Config) : Prop := ∀ e ∈ c.rules, e.2.Allowed

theorem rules_ofJson {value : Json} {config : Config} (h : ofJson value = .ok config) :
    config.rules = rulesField value := by
  obtain ⟨jobs, -, h⟩ := bind_eq_ok_iff.mp h
  obtain ⟨maxFileSize, -, h⟩ := bind_eq_ok_iff.mp h
  obtain ⟨maxPasses, -, h⟩ := bind_eq_ok_iff.mp h
  obtain ⟨timeout, -, h⟩ := bind_eq_ok_iff.mp h
  rw [← Except.ok.inj h]

theorem check_eq_ok_iff {value : Json} {config : Config} :
    check value = .ok config ↔ violation? value = none ∧ ofJson value = .ok config := by
  unfold check
  split
  · rename_i violation hviolation
    simp [hviolation]
  · rename_i hvalid
    rw [mapError_eq_ok_iff]
    exact (and_iff_right hvalid).symm

/-- In what passes the schema, each field does. -/
theorem fieldViolation?_of_get? {value field : Json} {name : String}
    (h : violation? value = none) (hfield : value.get? name = some field) :
    fieldViolation? name field = none := by
  cases value with
  | obj fields => exact List.findSome?_eq_none_iff.mp h _ (Dictionary.mem_of_get? hfield)
  | _ => cases hfield

/-- What passes the schema holds only settings that it allows. -/
theorem allowed_of_check {value : Json} {config : Config} (h : check value = .ok config) :
    config.Allowed := by
  obtain ⟨hvalid, hread⟩ := check_eq_ok_iff.mp h
  intro e he
  rw [rules_ofJson hread, rulesField] at he
  split at he
  · rename_i settings hfield
    obtain ⟨⟨key, setting⟩, hmem, rfl⟩ := List.mem_map.mp he
    have hsettings : requireRules (.obj settings) = none :=
      Option.map_eq_none_iff.mp (fieldViolation?_of_get? hvalid hfield)
    have hsetting := List.findSome?_eq_none_iff.mp hsettings _ hmem
    refine RuleOption.allowed_ofJson ?_
    by_contra hbad
    simp [hbad] at hsetting
  · cases he

theorem allowed_of_read {text : Text} {config : Config} (h : read text = .ok config) :
    config.Allowed := by
  obtain ⟨value, -, h⟩ := bind_eq_ok_iff.mp h
  exact allowed_of_check h

theorem Allowed.of_get? {c : Config} (h : c.Allowed) {key : String} {option : RuleOption}
    (hoption : Dictionary.get? key c.rules = some option) : option.Allowed :=
  h _ (Dictionary.mem_of_get? hoption)

theorem Allowed.of_ruleOption? {c : Config} (h : c.Allowed) {id name : String}
    {option : RuleOption} (hoption : c.ruleOption? id name = some option) : option.Allowed := by
  rcases Option.or_eq_some_iff.mp hoption with hid | ⟨-, hname⟩
  · exact h.of_get? hid
  · exact h.of_get? hname

theorem Allowed.setRuleEnabled {c : Config} (h : c.Allowed) (key : String) (on : Bool) :
    (c.setRuleEnabled key on).Allowed := by
  intro e he
  rcases Dictionary.mem_of_mem_insert he with rfl | he
  · dsimp only
    split
    · rename_i option hoption
      exact (h.of_get? hoption).withEnabled on
    · exact .enabled on
  · exact h e he

end Config
end Tidymark
