import Mathlib.Data.List.Nodup
import Tidymark.Config.Override
import Tidymark.Proofs.Registry
import Tidymark.Rules.FirstHeading
import Tidymark.Rules.HardTabs
import Tidymark.Rules.HashSpace

/-! # What the command line overrides

An override writes the option of one rule, under the key that counts for it. Where no two rules
share a key, the option of every other rule stays as it is, and so what is resolved for a rule can
be told from the lists that name it: a rule turned off is off, a rule in no list is as before, and
a rule turned on is on unless an object of options gives it the severity `off`. -/
namespace Tidymark

variable {m : Type → Type}

namespace Registry

/-- The name of a rule is neither the name nor the id of another one. Ids differ in every
registry. -/
def Distinct (r : Registry m) : Prop :=
  ∀ a ∈ r.toList, ∀ b ∈ r.toList, a.id ≠ b.id → a.name ≠ b.name ∧ a.name ≠ b.id

/-- One of the keys stands for the rule. -/
def Named (r : Registry m) (keys : List String) (rule : Rule m) : Prop :=
  ∃ key ∈ keys, r.get? key = some rule

variable {r : Registry m} {rule other : Rule m} {keys : List String}

theorem WellFormed.mem_of_named (h : r.WellFormed) (hnamed : r.Named keys rule) :
    rule ∈ r.toList := by
  obtain ⟨key, -, hrule⟩ := hnamed
  exact List.mem_map_of_mem (h.mem_of_get? hrule)

theorem WellFormed.get?_id_of_mem (h : r.WellFormed) (hmem : rule ∈ r.toList) :
    r.get? rule.id = some rule := by
  obtain ⟨e, he, rfl⟩ := List.mem_map.mp hmem
  exact h.get?_id (h.key_eq e he ▸ he)

theorem isSome_get?_name (hmem : rule ∈ r.toList) : (r.get? rule.name).isSome = true := by
  have hfind : (r.toList.find? fun a =>
      sameCaseless a.id rule.name || a.name == rule.name).isSome = true :=
    List.find?_isSome.mpr ⟨rule, hmem, by simp⟩
  rw [get?, Option.isSome_or, hfind, Bool.or_true]

/-- Neither the id nor the name of a rule is a key of another one. -/
theorem WellFormed.keys_ne (h : r.WellFormed) (hdistinct : r.Distinct) (hmem : rule ∈ r.toList)
    (hother : other ∈ r.toList) (hne : rule ≠ other) :
    (rule.id ≠ other.id ∧ rule.id ≠ other.name) ∧
      rule.name ≠ other.id ∧ rule.name ≠ other.name := by
  have hids : rule.id ≠ other.id := fun hsame =>
    hne (List.inj_on_of_nodup_map h.nodup_ids hmem hother hsame)
  obtain ⟨hnames, hname⟩ := hdistinct rule hmem other hother hids
  obtain ⟨-, hid⟩ := hdistinct other hother rule hmem hids.symm
  exact ⟨⟨hids, hid.symm⟩, hname, hnames⟩

end Registry

namespace RuleOption

/-- The option of a rule that is turned on or off, if it had one or not. -/
def switched (on : Bool) : Option RuleOption → RuleOption
  | some option => option.withEnabled on
  | none => enabled on

theorem switched_switched (on : Bool) (option : Option RuleOption) :
    switched on (some (switched on option)) = switched on option := by
  cases option with
  | none => cases on <;> rfl
  | some option => exact withEnabled_withEnabled on option

variable {option : Option RuleOption}

theorem isEnabled_switched (h : ∀ was ∈ option, was.Allowed) (on : Bool) :
    (switched on option).isEnabled = on := by
  cases option with
  | none => rfl
  | some was => exact (h was rfl).isEnabled_withEnabled on

theorem isMuted_switched (h : ∀ was ∈ option, was.Allowed) (on : Bool) :
    (switched on option).isMuted = option.any isMuted := by
  cases option with
  | none => rfl
  | some was => exact (h was rfl).isMuted_withEnabled on

end RuleOption

namespace Config

open Registry (Named ofList wellFormed_ofList)

variable {r : Registry m} {rule other : Rule m} {c c' : Config} {keys : List String}
variable {key : String} {on : Bool} {o : Overrides}

theorem keyOf_eq (c : Config) (rule : Rule m) :
    c.keyOf rule = rule.id ∨ c.keyOf rule = rule.name := by
  unfold keyOf
  dsimp only
  split
  · exact .inr rfl
  · exact .inl rfl

/-- The key that is written is the one that counts. -/
theorem ruleOption?_setRuleEnabled_self (c : Config) (rule : Rule m) (on : Bool) :
    (c.setRuleEnabled (c.keyOf rule) on).ruleOption? rule.id rule.name =
      some (.switched on (c.ruleOption? rule.id rule.name)) := by
  cases hid : Dictionary.get? rule.id c.rules with
  | some option =>
    simp [keyOf, setRuleEnabled, ruleOption?, hid, Dictionary.get?_insert_self,
      RuleOption.switched]
  | none =>
    cases hname : Dictionary.get? rule.name c.rules with
    | some option =>
      have hne : rule.id ≠ rule.name := by
        intro hsame
        rw [hsame, hname] at hid
        cases hid
      simp [keyOf, setRuleEnabled, ruleOption?, hid, hname, Dictionary.get?_insert_self,
        Dictionary.get?_insert_of_ne hne, RuleOption.switched]
    | none =>
      simp [keyOf, setRuleEnabled, ruleOption?, hid, hname, Dictionary.get?_insert_self,
        RuleOption.switched]

theorem ruleOption?_setRuleEnabled_of_ne (h : r.WellFormed) (hdistinct : r.Distinct)
    (hmem : rule ∈ r.toList) (hother : other ∈ r.toList) (hne : rule ≠ other) :
    (c.setRuleEnabled (c.keyOf other) on).ruleOption? rule.id rule.name =
      c.ruleOption? rule.id rule.name := by
  obtain ⟨hid, hname⟩ := h.keys_ne hdistinct hmem hother hne
  have hkeys : rule.id ≠ c.keyOf other ∧ rule.name ≠ c.keyOf other := by
    rcases c.keyOf_eq other with hkey | hkey <;> rw [hkey]
    · exact ⟨hid.1, hname.1⟩
    · exact ⟨hid.2, hname.2⟩
  simp only [ruleOption?, setRuleEnabled]
  rw [Dictionary.get?_insert_of_ne hkeys.1, Dictionary.get?_insert_of_ne hkeys.2]

theorem knows_setRuleEnabled (h : r.WellFormed) (hknows : r.Knows c) (hmem : rule ∈ r.toList) :
    r.Knows (c.setRuleEnabled (c.keyOf rule) on) := by
  intro key hkey
  obtain ⟨e, he, rfl⟩ := List.mem_map.mp hkey
  rcases Dictionary.mem_of_mem_insert he with rfl | he
  · rcases c.keyOf_eq rule with hkey | hkey <;> simp only [hkey]
    · rw [h.get?_id_of_mem hmem]
      rfl
    · exact Registry.isSome_get?_name hmem
  · exact hknows e.1 (List.mem_map_of_mem he)

theorem exists_rule_of_switchRule (h : c.switchRule r on key = .ok c') :
    ∃ rule, r.get? key = some rule ∧ c' = c.setRuleEnabled (c.keyOf rule) on := by
  unfold switchRule at h
  split at h
  · rename_i rule hrule
    exact ⟨rule, hrule, (Except.ok.inj h).symm⟩
  · cases h

/-- What every single override keeps, all of them together keep. -/
theorem switchRules_induct {P : Config → Prop}
    (hstep : ∀ c rule, r.Named keys rule → P c → P (c.setRuleEnabled (c.keyOf rule) on))
    (h : c.switchRules r on keys = .ok c') (hc : P c) : P c' := by
  induction keys generalizing c with
  | nil =>
    obtain rfl := Except.ok.inj h
    exact hc
  | cons key keys ih =>
    obtain ⟨next, hnext, h⟩ := bind_eq_ok_iff.mp h
    obtain ⟨rule, hrule, rfl⟩ := exists_rule_of_switchRule hnext
    have hkeep : ∀ c rule, r.Named keys rule → P c → P (c.setRuleEnabled (c.keyOf rule) on) := by
      rintro c rule ⟨key, hkey, hrule⟩
      exact hstep c rule ⟨key, List.mem_cons_of_mem _ hkey, hrule⟩
    exact ih hkeep h (hstep c rule ⟨key, List.mem_cons_self, hrule⟩ hc)

theorem ruleOption?_switchRules_of_not_named (hr : r.WellFormed) (hdistinct : r.Distinct)
    (hmem : rule ∈ r.toList) (hnot : ¬ r.Named keys rule) (h : c.switchRules r on keys = .ok c') :
    c'.ruleOption? rule.id rule.name = c.ruleOption? rule.id rule.name := by
  refine switchRules_induct
    (P := fun next => next.ruleOption? rule.id rule.name = c.ruleOption? rule.id rule.name)
    (fun next other hother hsame => ?_) h rfl
  have hne : rule ≠ other := fun heq => hnot (heq ▸ hother)
  rw [ruleOption?_setRuleEnabled_of_ne hr hdistinct hmem (hr.mem_of_named hother) hne, hsame]

/-- A rule that is switched, by one key or by more, is switched once. -/
theorem ruleOption?_switchRules_of_named (hr : r.WellFormed) (hdistinct : r.Distinct)
    (hnamed : r.Named keys rule) (h : c.switchRules r on keys = .ok c') :
    c'.ruleOption? rule.id rule.name = some (.switched on (c.ruleOption? rule.id rule.name)) := by
  have hmem := hr.mem_of_named hnamed
  induction keys generalizing c with
  | nil =>
    obtain ⟨key, hkey, -⟩ := hnamed
    cases hkey
  | cons key keys ih =>
    obtain ⟨next, hnext, h⟩ := bind_eq_ok_iff.mp h
    obtain ⟨other, hother, rfl⟩ := exists_rule_of_switchRule hnext
    have hself := ruleOption?_setRuleEnabled_self c rule on
    by_cases hrest : r.Named keys rule
    · have hbehind := ih hrest h
      by_cases hsame : rule = other
      · subst hsame
        rw [hbehind, hself, RuleOption.switched_switched]
      · have hfirst : other ∈ r.toList := List.mem_map_of_mem (hr.mem_of_get? hother)
        rw [hbehind, ruleOption?_setRuleEnabled_of_ne hr hdistinct hmem hfirst hsame]
    · have hsame : rule = other := by
        obtain ⟨named, hkey, hrule⟩ := hnamed
        rcases List.mem_cons.mp hkey with rfl | hkey
        · exact Option.some.inj (hrule.symm.trans hother)
        · exact absurd ⟨named, hkey, hrule⟩ hrest
      subst hsame
      rw [ruleOption?_switchRules_of_not_named hr hdistinct hmem hrest h, hself]

theorem exists_of_override (h : c.override r o = .ok c') :
    ∃ between, (c.overrideFlags o).switchRules r true o.enabled = .ok between ∧
      between.switchRules r false o.disabled = .ok c' :=
  bind_eq_ok_iff.mp h

/-- What every single override keeps, the command line keeps. -/
theorem override_induct {P : Config → Prop}
    (hstep : ∀ c rule on, rule ∈ r.toList → P c → P (c.setRuleEnabled (c.keyOf rule) on))
    (hr : r.WellFormed) (h : c.override r o = .ok c') (hc : P (c.overrideFlags o)) : P c' := by
  obtain ⟨between, henable, hdisable⟩ := exists_of_override h
  have hbetween : P between :=
    switchRules_induct (fun c rule hrule => hstep c rule true (hr.mem_of_named hrule)) henable hc
  exact switchRules_induct (fun c rule hrule => hstep c rule false (hr.mem_of_named hrule))
    hdisable hbetween

theorem allowed_override (hr : r.WellFormed) (hc : c.Allowed) (h : c.override r o = .ok c') :
    c'.Allowed :=
  override_induct (fun _ _ on _ hc => hc.setRuleEnabled _ on) hr h hc

theorem exists_resolve_override (hr : r.WellFormed) (hc : c.Allowed) (hknows : r.Knows c)
    (h : c.override r o = .ok c') : ∃ active, r.resolve c' = .ok active := by
  have hknows' : r.Knows c' :=
    override_induct (fun _ _ _ hmem hknows => knows_setRuleEnabled hr hknows hmem) hr h hknows
  exact hknows'.exists_resolve (allowed_override hr hc h)

variable {rules : List (Rule m)} {text : Text} {config switched : Config}

/-- One rule is off by its severity, another one by its field. -/
def twoOff : Config :=
  { Config.default with
    rules := [("MD041", .options (.obj [("severity", .str "off")])),
      ("no-hard-tabs", .options (.obj [("enabled", .bool false)]))] }

def twoOffText : Text :=
  "\x7b\"rules\": \x7b\"MD041\": \x7b\"severity\": \"off\"\x7d, ".toList ++
    "\"no-hard-tabs\": \x7b\"enabled\": false\x7d\x7d\x7d".toList

theorem read_twoOffText : read twoOffText = .ok twoOff := by
  have htokens : Json.Token.readAll (twoOffText.length + 1) twoOffText = some
      [.openBrace, .str "rules", .colon, .openBrace, .str "MD041", .colon, .openBrace,
        .str "severity", .colon, .str "off", .closeBrace, .comma, .str "no-hard-tabs", .colon,
        .openBrace, .str "enabled", .colon, .bool false, .closeBrace, .closeBrace,
        .closeBrace] := rfl
  have hvalue : Json.read twoOffText = .value (.obj [("rules", .obj
      [("MD041", .obj [("severity", .str "off")]),
        ("no-hard-tabs", .obj [("enabled", .bool false)])])]) := by
    rw [Json.read, htokens]
    rfl
  rw [read, readValue, hvalue]
  rfl

def threeRules : List (Rule Id) :=
  [Rules.HardTabs.rule, Rules.FirstHeading.rule, Rules.HashSpace.rule]

theorem distinct_threeRules : (ofList threeRules).Distinct := by
  have hrules : (ofList threeRules).toList =
      [Rules.HardTabs.rule, Rules.HashSpace.rule, Rules.FirstHeading.rule] := rfl
  rw [Registry.Distinct, hrules]
  simp [Rules.HardTabs.rule, Rules.FirstHeading.rule, Rules.HashSpace.rule, Rule.ofSteps]

theorem knows_twoOff : (ofList threeRules).Knows twoOff := by
  intro key hkey
  have hkeys : key = "MD041" ∨ key = "no-hard-tabs" := by
    simpa [twoOff, Dictionary.keys] using hkey
  rcases hkeys with rfl | rfl <;> rfl

/-- What the command line says if it only names rules. -/
def switching (enabled disabled : List String) : Overrides :=
  ⟨false, false, false, none, none, none, enabled, disabled⟩

/-- The command line turns on each rule that it names, unless an object of options gives the rule
the severity `off`. -/
theorem mem_resolve_override_iff (hdistinct : (ofList rules).Distinct)
    (hread : read text = .ok config) (hknows : (ofList rules).Knows config)
    (h : config.override (ofList rules) o = .ok switched)
    (hon : (ofList rules).Named o.enabled rule) (hoff : ¬ (ofList rules).Named o.disabled rule) :
    ∃ active, (ofList rules).resolve switched = .ok active ∧
      ((∃ a ∈ active, a.rule = rule) ↔
        (config.ruleOption? rule.id rule.name).any RuleOption.isMuted = false) := by
  have hr := wellFormed_ofList rules
  have hallowed := allowed_of_read hread
  obtain ⟨active, hactive⟩ := exists_resolve_override hr hallowed hknows h
  refine ⟨active, hactive, ?_⟩
  have hmem := hr.mem_of_named hon
  obtain ⟨between, henable, hdisable⟩ := exists_of_override h
  have hswitched : switched.ruleOption? rule.id rule.name =
      some (.switched true (config.ruleOption? rule.id rule.name)) := by
    rw [ruleOption?_switchRules_of_not_named hr hdistinct hmem hoff hdisable,
      ruleOption?_switchRules_of_named hr hdistinct hon henable]
    rfl
  have hwas : ∀ was ∈ config.ruleOption? rule.id rule.name, was.Allowed :=
    fun was hwas => hallowed.of_ruleOption? hwas
  have hoption := (allowed_override hr hallowed h).of_ruleOption? hswitched
  rw [hr.mem_resolve_iff hactive hmem hoption hswitched, RuleOption.isEnabled_switched hwas,
    RuleOption.isMuted_switched hwas]
  simp

/-- A rule that is off by its field is turned on. -/
theorem mem_resolve_override_field :
    let switched : Config :=
      { twoOff with
        rules := [("MD041", .options (.obj [("severity", .str "off")])),
          ("no-hard-tabs", .options (.obj [("enabled", .bool true)]))] }
    read twoOffText = .ok twoOff ∧
      twoOff.override (ofList threeRules) (switching ["md010"] []) = .ok switched ∧
      ∃ active, (ofList threeRules).resolve switched = .ok active ∧
        ∃ a ∈ active, a.rule = Rules.HardTabs.rule := by
  have hoverride : twoOff.override (ofList threeRules) (switching ["md010"] []) = .ok
      { twoOff with
        rules := [("MD041", .options (.obj [("severity", .str "off")])),
          ("no-hard-tabs", .options (.obj [("enabled", .bool true)]))] } := rfl
  have hon : (ofList threeRules).Named ["md010"] Rules.HardTabs.rule :=
    ⟨"md010", List.mem_singleton_self _, rfl⟩
  have hoff : ¬ (ofList threeRules).Named [] Rules.HardTabs.rule := by
    rintro ⟨key, hkey, -⟩
    cases hkey
  obtain ⟨active, hactive, hiff⟩ :=
    mem_resolve_override_iff distinct_threeRules read_twoOffText knows_twoOff hoverride hon hoff
  exact ⟨read_twoOffText, hoverride, active, hactive, hiff.mpr rfl⟩

/-- A rule that is off by its severity stays off, although the command line turns it on. -/
theorem resolve_override_severity :
    let switched : Config :=
      { twoOff with
        rules := [("MD041", .options (.obj [("enabled", .bool true), ("severity", .str "off")])),
          ("no-hard-tabs", .options (.obj [("enabled", .bool false)]))] }
    (ofList threeRules).Distinct ∧ read twoOffText = .ok twoOff ∧
      (ofList threeRules).Knows twoOff ∧
      twoOff.override (ofList threeRules) (switching ["MD041"] []) = .ok switched ∧
      (ofList threeRules).get? "MD041" = some Rules.FirstHeading.rule ∧
      (ofList threeRules).resolve switched = .ok [.ofRule Rules.HashSpace.rule] :=
  ⟨distinct_threeRules, read_twoOffText, knows_twoOff, rfl, rfl, rfl⟩

/-- The command line turns off each rule that it names so, also one that it turns on, and of the
rules that it does not name it changes nothing. -/
theorem resolve_override (hdistinct : (ofList rules).Distinct) (hread : read text = .ok config)
    (hknows : (ofList rules).Knows config) (h : config.override (ofList rules) o = .ok switched) :
    ∃ before active, (ofList rules).resolve config = .ok before ∧
      (ofList rules).resolve switched = .ok active ∧
      (∀ a ∈ active, ¬ (ofList rules).Named o.disabled a.rule) ∧
      ∀ rule ∈ (ofList rules).toList, ¬ (ofList rules).Named o.enabled rule →
        ¬ (ofList rules).Named o.disabled rule →
        active.filter (·.id == rule.id) = before.filter (·.id == rule.id) := by
  have hr := wellFormed_ofList rules
  have hallowed := allowed_of_read hread
  obtain ⟨before, hbefore⟩ := hknows.exists_resolve hallowed
  obtain ⟨active, hactive⟩ := exists_resolve_override hr hallowed hknows h
  obtain ⟨between, henable, hdisable⟩ := exists_of_override h
  refine ⟨before, active, hbefore, hactive, fun a ha hnamed => ?_, fun rule hmem hnot hnot' => ?_⟩
  · have hswitched := ruleOption?_switchRules_of_named hr hdistinct hnamed hdisable
    have hbetween : between.Allowed :=
      switchRules_induct (fun _ _ _ hc => hc.setRuleEnabled _ true) henable hallowed
    have hwas : ∀ was ∈ between.ruleOption? a.rule.id a.rule.name, was.Allowed :=
      fun was hwas => hbetween.of_ruleOption? hwas
    have hoff := RuleOption.isEnabled_switched hwas false
    have hoption := (allowed_override hr hallowed h).of_ruleOption? hswitched
    have hon := (hr.mem_resolve_iff hactive (hr.mem_of_named hnamed) hoption hswitched).mp
      ⟨a, ha, rfl⟩
    rw [hoff] at hon
    cases hon.1
  · refine hr.filter_resolve_congr hbefore hactive hmem ?_
    rw [ruleOption?_switchRules_of_not_named hr hdistinct hmem hnot' hdisable,
      ruleOption?_switchRules_of_not_named hr hdistinct hmem hnot henable]
    rfl

/-- A rule is turned on by its id and off by its name, and one that is not named stays as it is. -/
theorem resolve_override_both :
    let switched : Config :=
      { twoOff with
        rules := [("MD041", .options (.obj [("enabled", .bool false), ("severity", .str "off")])),
          ("no-hard-tabs", .options (.obj [("enabled", .bool false)]))] }
    twoOff.override (ofList threeRules)
        (switching ["md010"] ["no-hard-tabs", "first-line-heading"]) = .ok switched ∧
      ∃ before active, (ofList threeRules).resolve twoOff = .ok before ∧
        (ofList threeRules).resolve switched = .ok active ∧
        (∀ a ∈ active, a.rule ≠ Rules.HardTabs.rule) ∧
        active.filter (·.id == "MD018") = before.filter (·.id == "MD018") := by
  have hoverride : twoOff.override (ofList threeRules)
      (switching ["md010"] ["no-hard-tabs", "first-line-heading"]) = .ok
      { twoOff with
        rules := [("MD041", .options (.obj [("enabled", .bool false), ("severity", .str "off")])),
          ("no-hard-tabs", .options (.obj [("enabled", .bool false)]))] } := rfl
  have hname : (ofList threeRules).get? "no-hard-tabs" = some Rules.HardTabs.rule := rfl
  have hother : (Rules.HardTabs.rule : Rule Id).id ≠ (Rules.HashSpace.rule : Rule Id).id := by
    decide
  have hother' : (Rules.FirstHeading.rule : Rule Id).id ≠ (Rules.HashSpace.rule : Rule Id).id := by
    decide
  have hnot : ¬ (ofList threeRules).Named ["md010"] Rules.HashSpace.rule := by
    rintro ⟨key, hkey, hrule⟩
    obtain rfl := List.mem_singleton.mp hkey
    exact hother (congrArg Rule.id (Option.some.inj hrule))
  have hnot' : ¬ (ofList threeRules).Named ["no-hard-tabs", "first-line-heading"]
      Rules.HashSpace.rule := by
    rintro ⟨key, hkey, hrule⟩
    rcases List.mem_pair.mp hkey with rfl | rfl
    · exact hother (congrArg Rule.id (Option.some.inj hrule))
    · exact hother' (congrArg Rule.id (Option.some.inj hrule))
  obtain ⟨before, active, hbefore, hactive, hoff, hsame⟩ :=
    resolve_override distinct_threeRules read_twoOffText knows_twoOff hoverride
  refine ⟨hoverride, before, active, hbefore, hactive, fun a ha hrule => ?_, ?_⟩
  · exact hoff a ha ⟨"no-hard-tabs", by simp [switching], hrule ▸ hname⟩
  · have hget : (ofList threeRules).get? "MD018" = some Rules.HashSpace.rule := rfl
    have hmem := (wellFormed_ofList threeRules).mem_of_get? hget
    exact hsame Rules.HashSpace.rule (List.mem_map_of_mem hmem) hnot hnot'

end Config
end Tidymark
