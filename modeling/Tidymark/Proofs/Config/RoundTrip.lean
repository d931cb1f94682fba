import Tidymark.Proofs.Config.Setting

/-! # Writing configurations and reading them again

A configuration that was read keeps to the schema while rules are turned on and off. What keeps to
the schema is written as a value that passes it, and that is read as the same configuration, with
each setting in the form that it had. -/
namespace Tidymark

namespace RuleOption

variable {option : RuleOption}

theorem Allowed.isRuleSetting_toJson (h : option.Allowed) :
    Config.isRuleSetting option.toJson = true := by
  cases h with
  | enabled on => rfl
  | severity h => exact h
  | options h => exact h

theorem Allowed.ofJson_toJson (h : option.Allowed) : ofJson option.toJson = option := by
  cases h <;> rfl

end RuleOption

namespace Config

section
variable {value field : Json} {name type : String} {maximum : Option Nat} {n : Nat}

/-- A whole number that the schema allows and that has 64 bits at most. -/
def InRange (maximum : Option Nat) (n : Nat) : Prop :=
  1 ≤ n ∧ n < 2 ^ 64 ∧ ∀ most ∈ maximum, n ≤ most

theorem inRange_of_asNat? (h : requireWhole maximum value = none) (hn : value.asNat? = some n) :
    InRange maximum n := by
  cases value with
  | int i =>
    simp only [Json.asNat?, Bool.and_eq_true, decide_eq_true_eq, Option.ite_none_right_eq_some,
      Option.some.injEq] at hn
    obtain ⟨⟨hsign, hsize⟩, rfl⟩ := hn
    simp only [requireWhole] at h
    split at h
    · cases h
    · refine ⟨by omega, hsize, fun most hmost => ?_⟩
      by_contra hlarge
      rw [Option.mem_def.mp hmost, Option.bind_some, if_pos (by omega)] at h
      cases h
  | _ => cases hn

theorem InRange.requireWhole_ofNat (h : InRange maximum n) :
    requireWhole maximum (.ofNat n) = none := by
  obtain ⟨hpositive, -, hmost⟩ := h
  simp only [Json.ofNat, requireWhole]
  rw [if_neg (by omega), Option.bind_eq_none_iff]
  intro most hmem
  have hle : n ≤ most := hmost most hmem
  exact if_neg (by omega)

theorem InRange.asNat?_ofNat (h : InRange maximum n) : (Json.ofNat n).asNat? = some n := by
  have hsize : n < Nat.pow 2 64 := h.2.1
  simp [Json.ofNat, Json.asNat?, hsize]

theorem inRange_of_wholeField {whole : Option Nat} (hvalid : violation? value = none)
    (hschema : ∀ field, fieldViolation? name field =
      (atRoot (requireWhole maximum field)).map (.under name))
    (h : wholeField value name type = .ok whole) : ∀ n ∈ whole, InRange maximum n := by
  intro n hn
  unfold wholeField at h
  split at h
  · cases h
  · rename_i field _ hfield
    obtain rfl := Except.ok.inj h
    have hrequired : requireWhole maximum field = none := by
      have hnone := fieldViolation?_of_get? hvalid hfield
      rwa [hschema, Option.map_eq_none_iff, atRoot, Option.map_eq_none_iff] at hnone
    exact inRange_of_asNat? hrequired hn
  · obtain rfl := Except.ok.inj h
    cases hn

theorem wholeField_of_get? {whole : Option Nat} (hfield : value.get? name = whole.map .ofNat)
    (h : ∀ n ∈ whole, InRange maximum n) : wholeField value name type = .ok whole := by
  unfold wholeField
  rw [hfield]
  cases whole with
  | none => rfl
  | some n => exact congrArg Except.ok (h n rfl).asNat?_ofNat

end

/-- What the schema promises of a configuration. -/
structure Sound (c : Config) : Prop where
  allowed : c.Allowed
  jobs : ∀ n ∈ c.jobs, InRange none n
  maxPasses : InRange (some 100) c.maxPasses
  timeout : ∀ n ∈ c.timeout, InRange none n
  maxFileSize : InRange none c.maxFileSize

variable {c : Config} {value : Json}

theorem sound_of_check (h : check value = .ok c) : c.Sound := by
  have hallowed := allowed_of_check h
  obtain ⟨hvalid, h⟩ := check_eq_ok_iff.mp h
  obtain ⟨jobs, hjobs, h⟩ := bind_eq_ok_iff.mp h
  obtain ⟨maxFileSize, hmaxFileSize, h⟩ := bind_eq_ok_iff.mp h
  obtain ⟨maxPasses, hmaxPasses, h⟩ := bind_eq_ok_iff.mp h
  obtain ⟨timeout, htimeout, h⟩ := bind_eq_ok_iff.mp h
  obtain rfl := Except.ok.inj h
  refine ⟨hallowed, inRange_of_wholeField hvalid (fun _ => rfl) hjobs, ?_,
    inRange_of_wholeField hvalid (fun _ => rfl) htimeout, ?_⟩
  · cases maxPasses with
    | none => simp [InRange, defaultMaxPasses]
    | some n => exact inRange_of_wholeField hvalid (fun _ => rfl) hmaxPasses n rfl
  · cases maxFileSize with
    | none => simp [InRange, defaultMaxFileSize]
    | some n => exact inRange_of_wholeField hvalid (fun _ => rfl) hmaxFileSize n rfl

theorem Sound.setRuleEnabled (h : c.Sound) (key : String) (on : Bool) :
    (c.setRuleEnabled key on).Sound :=
  { h with allowed := h.allowed.setRuleEnabled key on }

/-- Turns rules on or off, one after the other. -/
def setRulesEnabled (c : Config) (switches : List (String × Bool)) : Config :=
  switches.foldl (fun c (key, on) => c.setRuleEnabled key on) c

theorem Sound.setRulesEnabled (h : c.Sound) (switches : List (String × Bool)) :
    (c.setRulesEnabled switches).Sound := by
  induction switches generalizing c with
  | nil => exact h
  | cons switch switches ih => exact ih (h.setRuleEnabled switch.1 switch.2)

theorem nodup_keys_fields (c : Config) : (Dictionary.keys c.fields).Nodup := by
  unfold fields
  cases c.jobs <;> cases c.timeout <;> simp [Dictionary.keys]

theorem get?_toJson (c : Config) (name : String) :
    c.toJson.get? name = Dictionary.get? name c.fields :=
  Dictionary.get?_ofList c.nodup_keys_fields name

theorem requireStringsFrom_map_str (index : Nat) (strings : List String) :
    requireStringsFrom index (strings.map .str) = none := by
  induction strings generalizing index with
  | nil => rfl
  | cons s strings ih => exact ih (index + 1)

theorem Allowed.requireRules_toJson (h : c.Allowed) :
    requireRules (.obj (c.rules.map fun (key, option) => (key, option.toJson))) = none := by
  refine List.findSome?_eq_none_iff.mpr fun field hfield => ?_
  obtain ⟨e, he, rfl⟩ := List.mem_map.mp hfield
  exact if_pos (h e he).isRuleSetting_toJson

theorem Sound.violation?_toJson (h : c.Sound) : violation? c.toJson = none := by
  have hfields : ∀ field ∈ c.fields, fieldViolation? field.1 field.2 = none := by
    simp only [fields, List.forall_mem_append, List.forall_mem_cons]
    refine ⟨⟨⟨?_, ?_, ?_, rfl, rfl, rfl, ?_, ?_, nofun⟩, ?_⟩, ?_⟩
    · simp [fieldViolation?, h.allowed.requireRules_toJson]
    · simp [fieldViolation?, requireStrings, requireStringsFrom_map_str]
    · simp [fieldViolation?, requireStrings, requireStringsFrom_map_str]
    · simp [fieldViolation?, h.maxPasses.requireWhole_ofNat, atRoot]
    · simp [fieldViolation?, h.maxFileSize.requireWhole_ofNat, atRoot]
    · cases hjobs : c.jobs with
      | none => simp
      | some n => simp [fieldViolation?, (h.jobs n hjobs).requireWhole_ofNat, atRoot]
    · cases htimeout : c.timeout with
      | none => simp
      | some n => simp [fieldViolation?, (h.timeout n htimeout).requireWhole_ofNat, atRoot]
  exact List.findSome?_eq_none_iff.mpr fun field hfield =>
    hfields field (Dictionary.mem_of_mem_ofList hfield)

theorem stringsField_of_get? {name : String} {strings : List String}
    (h : value.get? name = some (.arr (strings.map .str))) :
    stringsField value name = strings := by
  simp [stringsField, h, Json.asArr?, List.filterMap_map, Function.comp_def, Json.asStr?]

theorem boolField_of_get? {name : String} {b fallback : Bool}
    (h : value.get? name = some (.bool b)) : boolField value name fallback = b := by
  simp [boolField, h, Json.asBool?]

theorem Allowed.rulesField_toJson (h : c.Allowed)
    (hrules : value.get? "rules" =
      some (.obj (c.rules.map fun (key, option) => (key, option.toJson)))) :
    rulesField value = c.rules := by
  have hsame : ∀ e ∈ c.rules, (e.1, RuleOption.ofJson e.2.toJson) = e := fun e he =>
    Prod.ext rfl (h e he).ofJson_toJson
  simp only [rulesField, hrules, List.map_map]
  exact (List.map_congr_left (g := id) hsame).trans (List.map_id c.rules)

theorem Sound.ofJson_toJson (h : c.Sound) : ofJson c.toJson = .ok { c with baseDir := none } := by
  have hget {name : String} {field : Option Json} (hfield : Dictionary.get? name c.fields = field) :
      c.toJson.get? name = field := (c.get?_toJson name).trans hfield
  have hjobs : wholeField c.toJson "jobs" "usize" = .ok c.jobs := by
    refine wholeField_of_get? (hget ?_) h.jobs
    unfold fields
    cases c.jobs <;> cases c.timeout <;> rfl
  have htimeout : wholeField c.toJson "timeout_secs" "u64" = .ok c.timeout := by
    refine wholeField_of_get? (hget ?_) h.timeout
    unfold fields
    cases c.jobs <;> cases c.timeout <;> rfl
  have hmaxFileSize : wholeField c.toJson "max_file_size" "u64" = .ok (some c.maxFileSize) :=
    wholeField_of_get? (hget rfl) fun _ hn => Option.mem_some.mp hn ▸ h.maxFileSize
  have hmaxPasses : wholeField c.toJson "max_passes" "usize" = .ok (some c.maxPasses) :=
    wholeField_of_get? (hget rfl) fun _ hn => Option.mem_some.mp hn ▸ h.maxPasses
  have hrules : rulesField c.toJson = c.rules := h.allowed.rulesField_toJson (hget rfl)
  have hincluded : stringsField c.toJson "include" = c.included := stringsField_of_get? (hget rfl)
  have hexcluded : stringsField c.toJson "exclude" = c.excluded := stringsField_of_get? (hget rfl)
  have hfix : boolField c.toJson "fix" false = c.fix := boolField_of_get? (hget rfl)
  have hdryRun : boolField c.toJson "dry_run" false = c.dryRun := boolField_of_get? (hget rfl)
  have hbackup : boolField c.toJson "backup" true = c.backup := boolField_of_get? (hget rfl)
  rw [ofJson, hjobs, hmaxFileSize, hmaxPasses, htimeout, hrules, hincluded, hexcluded, hfix,
    hdryRun, hbackup]
  rfl

/-- Whichever rules are turned on and off, a configuration that was read is written as a value that
passes the schema, and that is read as the same configuration. Only the directory is not written. -/
theorem ofJson_toJson_setRulesEnabled (h : check value = .ok c) (directory : Option String)
    (switches : List (String × Bool)) :
    let switched := Config.setRulesEnabled { c with baseDir := directory } switches
    violation? switched.toJson = none ∧
      ofJson switched.toJson = .ok { switched with baseDir := none } := by
  intro switched
  have hsound := sound_of_check h
  have hplaced : Sound { c with baseDir := directory } :=
    ⟨hsound.allowed, hsound.jobs, hsound.maxPasses, hsound.timeout, hsound.maxFileSize⟩
  have hswitched : switched.Sound := hplaced.setRulesEnabled switches
  exact ⟨hswitched.violation?_toJson, hswitched.ofJson_toJson⟩

/-- Settings of all forms are turned on and off, and one is new. -/
theorem ofJson_toJson_setRulesEnabled_forms :
    let value : Json := .obj [("include", .arr [.str "docs/**"]), ("jobs", .int 4),
      ("rules", .obj [("MD009", .str "off"), ("MD012", .str "warning"), ("MD018", .bool false),
        ("no-hard-tabs", .obj [("fix", .bool false), ("spaces_per_tab", .int 2)])])]
    let c : Config := { Config.default with
      rules := [("MD009", .severity "off"), ("MD012", .severity "warning"),
        ("MD018", .enabled false),
        ("no-hard-tabs", .options (.obj [("fix", .bool false), ("spaces_per_tab", .int 2)]))],
      included := ["docs/**"], jobs := some 4 }
    let switched : Config := { c with
      rules := [("MD009", .enabled true), ("MD012", .severity "warning"), ("MD018", .enabled true),
        ("MD047", .enabled false), ("no-hard-tabs", .options (.obj
          [("enabled", .bool false), ("fix", .bool false), ("spaces_per_tab", .int 2)]))],
      baseDir := some "docs" }
    let switches := [("MD009", true), ("MD012", true), ("MD018", true), ("MD047", false),
      ("no-hard-tabs", false)]
    check value = .ok c ∧
      Config.setRulesEnabled { c with baseDir := some "docs" } switches = switched ∧
      violation? switched.toJson = none ∧
      ofJson switched.toJson = .ok { switched with baseDir := none } := by
  intro value c switched switches
  have hcheck : check value = .ok c := rfl
  have hswitched : Config.setRulesEnabled { c with baseDir := some "docs" } switches = switched :=
    rfl
  exact ⟨hcheck, hswitched, hswitched ▸ ofJson_toJson_setRulesEnabled hcheck (some "docs") switches⟩

end Config
end Tidymark
