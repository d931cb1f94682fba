import Tidymark.Proofs.Line.Tiling
import Tidymark.Snapshot

/-! # Trees of prose

Where a tree has neither code nor front matter, no line is verbatim: a snapshot has the lines of its
source as they are. -/
namespace Tidymark

mutual

/-- A node and all below it, in source order. -/
def Node.nodes : Node → List Node
  | .mk kind span children value data =>
    .mk kind span children value data :: Node.nodesAll children

def Node.nodesAll : List Node → List Node
  | [] => []
  | node :: rest => node.nodes ++ Node.nodesAll rest

end

/-- No node of the tree is code or front matter. -/
def Node.IsProse (root : Node) : Prop :=
  ∀ node ∈ root.nodes, node.kind ≠ .code ∧ node.kind ≠ .frontMatter

instance (root : Node) : Decidable root.IsProse :=
  inferInstanceAs (Decidable (∀ node ∈ root.nodes, node.kind ≠ .code ∧ node.kind ≠ .frontMatter))

namespace Outlook

/-- The spans that are noted of a node are those of code and front matter. -/
theorem verbatim_note {node : Node} (hcode : node.kind ≠ .code)
    (hfront : node.kind ≠ .frontMatter) (o : Outlook) :
    (note (Hook.ofKind node.kind) node o).2.verbatim = o.verbatim := by
  cases hkind : node.kind with
  | code => exact absurd hkind hcode
  | frontMatter => exact absurd hkind hfront
  | heading =>
    simp only [Hook.ofKind, note]
    split <;> rfl
  | _ => rfl

mutual

theorem verbatim_walk (node : Node) (h : node.IsProse) (o : Outlook) :
    (collector.walk node o).2.verbatim = o.verbatim := by
  cases node with
  | mk kind span children value data =>
    obtain ⟨hcode, hfront⟩ := h _ (by rw [Node.nodes]; exact List.mem_cons_self)
    have hnote := verbatim_note hcode hfront { o with depth := o.depth + 1 }
    have hbehind : ∀ noted : Bool × Outlook,
        ((do if noted.1 then collector.walkAll children
             collector.exit (.mk kind span children value data) : StateM Outlook Unit)
          noted.2).2.verbatim = noted.2.verbatim := by
      rintro ⟨goesOn, o'⟩
      cases goesOn with
      | true => exact verbatim_walkAll children (fun n hn => h n (by simp [Node.nodes, hn])) o'
      | false => rfl
    rw [Visitor.walk]
    exact (hbehind _).trans hnote

theorem verbatim_walkAll (nodes : List Node)
    (h : ∀ node ∈ Node.nodesAll nodes, node.kind ≠ .code ∧ node.kind ≠ .frontMatter)
    (o : Outlook) : (collector.walkAll nodes o).2.verbatim = o.verbatim := by
  cases nodes with
  | nil => rfl
  | cons node rest =>
    have hnode : node.IsProse := fun n hn => h n (by simp [Node.nodesAll, hn])
    have hrest := verbatim_walkAll rest (fun n hn => h n (by simp [Node.nodesAll, hn]))
      (collector.walk node o).2
    rw [verbatim_walk node hnode] at hrest
    exact hrest

end

theorem verbatim_ofTree {root : Node} (h : root.IsProse) : (ofTree root).verbatim = [] :=
  verbatim_walk root h empty

end Outlook

/-- In a tree of prose the lines of a snapshot are those of its source. -/
theorem Snapshot.lines_ofTree {root : Node} (hprose : root.IsProse) (path : String)
    (source : Text) : (ofTree path source root).lines = Line.ofText source := by
  have hid : ∀ l ∈ Line.ofText source, { l with verbatim := false } = l := by
    intro l hl
    rw [← Line.verbatim_of_mem_ofText hl]
  simp only [ofTree, markVerbatim, Outlook.verbatim_ofTree hprose, List.any_nil]
  exact (List.map_congr_left hid).trans (List.map_id _)

end Tidymark
