import Mathlib.Order.RelClasses
import Tidymark.Dictionary

/-! # Entries of dictionaries

Setting the values of two keys does not need an order, and a dictionary stays in the order of its
keys. -/
namespace Tidymark.Dictionary

variable {κ β : Type} [DecidableEq κ] {key : κ} {v : β} {d : List (κ × β)}

theorem mem_of_get? (h : get? key d = some v) : (key, v) ∈ d := by
  induction d with
  | nil => cases h
  | cons e d ih =>
    unfold get? at h
    split at h
    · rename_i hkey
      rw [hkey, ← Option.some.inj h]
      exact List.mem_cons_self
    · exact List.mem_cons_of_mem _ (ih h)

theorem get?_eq_none_of_not_mem (h : key ∉ keys d) : get? key d = none := by
  cases hvalue : get? key d with
  | none => rfl
  | some v => exact absurd (List.mem_map_of_mem (mem_of_get? hvalue)) h

variable [LT κ]

/-- In the order of the keys, and each key once. -/
def Sorted (d : List (κ × β)) : Prop := d.Pairwise fun a b => a.1 < b.1

theorem Sorted.get?_of_mem [IsStrictTotalOrder κ (· < ·)] (h : Sorted d) (hmem : (key, v) ∈ d) :
    get? key d = some v := by
  induction d with
  | nil => cases hmem
  | cons e d ih =>
    obtain ⟨hhead, htail⟩ := List.pairwise_cons.mp h
    unfold get?
    rcases List.mem_cons.mp hmem with rfl | hmem
    · exact if_pos rfl
    · have hlt : e.1 < key := hhead _ hmem
      rw [if_neg fun hkey : key = e.1 => irrefl_of (· < ·) key (hkey ▸ hlt)]
      exact ih htail hmem

variable [DecidableLT κ]

theorem mem_of_mem_insert {e : κ × β} (h : e ∈ insert key v d) : e = (key, v) ∨ e ∈ d := by
  induction d with
  | nil => exact .inl (List.mem_singleton.mp h)
  | cons e' d ih =>
    unfold insert at h
    grind

theorem ofList_eq (entries : List (κ × β)) :
    ofList entries = entries.foldl (fun d e => insert e.1 e.2 d) [] :=
  rfl

theorem mem_of_mem_ofList {entries : List (κ × β)} {e : κ × β} (h : e ∈ ofList entries) :
    e ∈ entries := by
  have hfold : ∀ d, e ∈ entries.foldl (fun d e => insert e.1 e.2 d) d → e ∈ d ∨ e ∈ entries := by
    clear h
    induction entries with
    | nil => exact fun d h => .inl h
    | cons first rest ih =>
      intro d h
      rcases ih _ h with h | h
      · rcases mem_of_mem_insert h with rfl | h
        · exact .inr List.mem_cons_self
        · exact .inl h
      · exact .inr (List.mem_cons_of_mem _ h)
  rw [ofList_eq] at h
  exact (hfold [] h).resolve_left (by simp)

/-- Where no key comes twice, a dictionary has the values that it is made of. -/
theorem get?_ofList {entries : List (κ × β)} (h : (keys entries).Nodup) (key : κ) :
    get? key (ofList entries) = get? key entries := by
  have hfold : ∀ d, get? key (entries.foldl (fun d e => insert e.1 e.2 d) d) =
      (get? key entries).or (get? key d) := by
    induction entries with
    | nil => exact fun d => rfl
    | cons first rest ih =>
      intro d
      obtain ⟨hnew, hrest⟩ := List.nodup_cons.mp h
      rw [List.foldl_cons, ih hrest]
      by_cases hkey : key = first.1
      · subst hkey
        rw [get?_eq_none_of_not_mem hnew, get?_insert_self, get?, if_pos rfl]
        rfl
      · rw [get?_insert_of_ne hkey, get?, if_neg hkey]
  rw [ofList_eq, hfold, get?, Option.or_none]

variable [IsStrictTotalOrder κ (· < ·)]

theorem Sorted.insert (h : Sorted d) (key : κ) (v : β) : Sorted (insert key v d) := by
  induction d with
  | nil => exact List.pairwise_singleton _ _
  | cons e d ih =>
    obtain ⟨hhead, htail⟩ := List.pairwise_cons.mp h
    unfold Dictionary.insert
    split
    · rename_i hlt
      refine List.pairwise_cons.mpr ⟨List.forall_mem_cons.mpr ⟨hlt, fun e' he' => ?_⟩, h⟩
      exact trans_of (· < ·) hlt (hhead e' he')
    · rename_i hlt
      split
      · rename_i hkey
        exact List.pairwise_cons.mpr ⟨fun e' he' => hkey ▸ hhead e' he', htail⟩
      · rename_i hne
        refine List.pairwise_cons.mpr ⟨fun e' he' => ?_, ih htail⟩
        rcases mem_of_mem_insert he' with rfl | he'
        · exact ((trichotomous_of (· < ·) key e.1).resolve_left hlt).resolve_left hne
        · exact hhead e' he'

/-- Of two values under one key the latter counts. -/
theorem insert_insert (v w : β) (d : List (κ × β)) :
    insert key v (insert key w d) = insert key v d := by
  have hirrefl : ∀ a : κ, ¬ a < a := fun a => irrefl_of (· < ·) a
  induction d with
  | nil => simp [insert, hirrefl]
  | cons e d ih =>
    simp only [insert]
    grind [insert]

/-- Where two keys differ, it does not matter which value is set first. -/
theorem insert_comm {other : κ} (h : key ≠ other) (v w : β) (d : List (κ × β)) :
    insert other w (insert key v d) = insert key v (insert other w d) := by
  have htrans : ∀ {a b c : κ}, a < b → b < c → a < c := fun hab hbc => trans_of (· < ·) hab hbc
  have hirrefl : ∀ a : κ, ¬ a < a := fun a => irrefl_of (· < ·) a
  have htotal : ∀ a b : κ, a < b ∨ a = b ∨ b < a := fun a b => trichotomous_of (· < ·) a b
  induction d with
  | nil =>
    simp only [insert]
    grind
  | cons e d ih =>
    simp only [insert]
    grind [insert]

end Tidymark.Dictionary
