import Tidymark.Proofs.Rule.Harmless

/-! # Where rules cut

A rule breaks down where it cuts a text inside of a character or behind its end. A cut of a text
succeeds behind each first part of it, and the text of each line can be cut out of the source. -/
namespace Tidymark

namespace Text

variable {t rest : Text} {n : Nat}

theorem dropBytes_eq_ok_iff :
    t.dropBytes n = .ok rest ↔ ∃ front, t = front ++ rest ∧ front.size = n := by
  rw [← drop?_eq_some_iff, dropBytes]
  cases t.drop? n with
  | none => exact iff_of_false (fun h => nomatch h) fun h => nomatch h
  | some r =>
    exact ⟨fun h => congrArg some (Except.ok.inj h), fun h => congrArg _ (Option.some.inj h)⟩

theorem dropBytes_size_append (front rest : Text) :
    Text.dropBytes (front ++ rest) front.size = .ok rest :=
  dropBytes_eq_ok_iff.mpr ⟨front, rfl, rfl⟩

/-- Behind a first part of a text, which goes on with the characters that are left. -/
theorem dropBytes_of_isPrefix {front : Text} (h : front <+: t) :
    t.dropBytes front.size = .ok (t.drop front.length) := by
  have hcut := dropBytes_size_append front (t.drop front.length)
  rwa [List.prefix_iff_eq_append.mp h] at hcut

/-- Behind characters of one byte at the start of a text. -/
theorem dropBytes_takeWhile {q : Char → Bool} (hq : ∀ c, q c = true → c.utf8Size = 1) (t : Text) :
    t.dropBytes (t.takeWhile q).length = .ok (t.drop (t.takeWhile q).length) := by
  have hsize := size_takeWhile hq t
  have hcut := dropBytes_of_isPrefix (List.takeWhile_prefix (l := t) q)
  rwa [hsize] at hcut

end Text

namespace RuleContext

variable {ctx : RuleContext} {source p q r : Text} {line : Line} {start stop : Nat}

/-- A part of a line of the source is a part of the source. -/
theorem Views.slice_of_line (hctx : ctx.Views source) (hline : line ∈ ctx.snapshot.lines)
    (htext : line.text = p ++ q ++ r) (hstart : start = line.start + p.size)
    (hstop : stop = start + q.size) : source.slice? start stop = some q := by
  have hwhole : line.whole = p ++ q ++ (r ++ line.terminator) := by simp [Line.whole, htext]
  exact hctx.tiles.slice_of_mem hline hwhole hstart hstop

/-- The text of a line is a part of the source. -/
theorem Views.slice_text (hctx : ctx.Views source) (hline : line ∈ ctx.snapshot.lines) :
    source.slice? line.start line.newlineStart = some line.text :=
  hctx.slice_of_line (p := []) (r := []) hline (by simp) rfl rfl

theorem slice_eq_ok (hctx : ctx.Views source) (h : source.slice? start stop = some q) :
    ctx.slice start stop = .ok q := by
  rw [slice, hctx.source_eq, h]

/-- The text of a line can be cut out of the source. -/
theorem Views.lineText_eq (hctx : ctx.Views source) (hline : line ∈ ctx.snapshot.lines) :
    ctx.lineText line = .ok line.text :=
  slice_eq_ok hctx (hctx.slice_text hline)

end RuleContext
end Tidymark
