import ExtensiveForm.Registry
import ExtensiveForm.SequenceTree.Basic

/-!
From the order of discovery to blocks. The sets of a registry form a forest: a set hangs below the
set whose sequence leads to it. They are laid out in preorder, roots and children each in the order
of their discovery, and every set gets the next free block.
-/

set_option autoImplicit false

namespace ExtensiveForm

structure Layout (L A : Type) where
  tree : SequenceTree L A
  offsets : Array Nat

namespace Registry

variable {L A : Type} [BEq L] [Hashable L]

def roots (r : Registry L A) : List Nat :=
  r.infosets.toList.zipIdx.filterMap fun (info, i) =>
    match info.parent with
    | .empty => some i
    | .move _ _ => none

def children (r : Registry L A) : Array (List Nat) :=
  r.infosets.toList.zipIdx.foldr
    (fun (info, i) below =>
      match info.parent with
      | .empty => below
      | .move p _ => below.modify p (i :: ·))
    (Array.replicate r.size [])

/-- Visits the pending sets, each before its children and those before its successors. -/
def preorderFrom (children : Array (List Nat)) : Nat → List Nat → List Nat
  | _, [] => []
  | 0, _ :: _ => []
  | n + 1, i :: pending => i :: preorderFrom children n (children.getD i [] ++ pending)

/-- The sets in preorder; each is visited once, so there are no more visits than sets. -/
def preorder (r : Registry L A) : List Nat := preorderFrom r.children r.size r.roots

def placeFrom (r : Registry L A) : List Nat → Nat → Array Nat → Array Nat
  | [], _, offsets => offsets
  | i :: rest, next, offsets =>
    let width := (r.infosets[i]?.map (·.actions.length)).getD 0
    r.placeFrom rest (next + width) (offsets.setIfInBounds i next)

def offsets (r : Registry L A) : Array Nat := r.placeFrom r.preorder 1 (Array.replicate r.size 0)

def appendSet (offsets : Array Nat) (t : SequenceTree L A) (info : Infoset L A) (start : Nat) :
    SequenceTree L A :=
  match t with
  | ⟨parent, offset, label, actions⟩ =>
    ⟨parent.push ((info.parent.flat? offsets).getD 0), offset.push (start + info.actions.length),
      label.push info.label, actions.push info.actions⟩

def layout (r : Registry L A) : Layout L A :=
  let order := r.preorder
  let offsets := r.placeFrom order 1 (Array.replicate r.size 0)
  let tree := order.foldl
    (fun t i =>
      match r.infosets[i]?, offsets[i]? with
      | some info, some start => appendSet offsets t info start
      | _, _ => t)
    SequenceTree.empty
  ⟨tree, offsets⟩

@[simp] theorem offsets_layout (r : Registry L A) : r.layout.offsets = r.offsets := rfl

end Registry

end ExtensiveForm
