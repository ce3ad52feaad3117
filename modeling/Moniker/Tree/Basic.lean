import Moniker.Range
import Moniker.Tree.CharClass

/-!
# Trees: what a pattern means

A `Node` is something repeated a number of times: a literal text, characters of a class, a
run of nodes as a unit, or one node. A `Tree` is one node or a run of them.

* `Node.preorder`, `Tree.preorder` — every node at every depth, a node before what it holds;
* `Tree.nodeCount` — how many there are;
* `Tree.check` — the first inverted range that naming could meet, if there is one.

The range of a literal has no meaning: a literal stands for its text, once. It is kept, and
`Node.range?` leaves it out.
-/

namespace Moniker

/-- Something repeated. -/
inductive Tree.Node where
  /-- a text, once, whatever the range says -/
  | literal (range : Range) (text : String)
  /-- as many characters of a class as the range says -/
  | chars (range : Range) (cls : CharClass)
  /-- the children in a row, the whole row as often as the range says -/
  | group (range : Range) (children : List Tree.Node)
  /-- one child, as often as the range says -/
  | single (range : Range) (child : Tree.Node)

/-- The meaning of a pattern. -/
inductive Tree where
  /-- a pattern of one block -/
  | node (node : Tree.Node)
  /-- a pattern of several pieces in a row -/
  | list (nodes : List Tree.Node)

namespace Tree

namespace Node

/-- The range as written, also that of a literal. -/
def range : Node → Range
  | literal range _ | chars range _ | group range _ | single range _ => range

/-- The range that a count is drawn from; a literal has none. -/
def range? : Node → Option Range
  | literal .. => none
  | chars range _ | group range _ | single range _ => some range

/-! ### Induction -/

/-- To show something of every node, show it of a group from its children. -/
@[elab_as_elim, induction_eliminator]
theorem induct {motive : Node → Prop}
    (literal : ∀ range text, motive (literal range text))
    (chars : ∀ range cls, motive (chars range cls))
    (group : ∀ range children, (∀ child ∈ children, motive child) → motive (group range children))
    (single : ∀ range child, motive child → motive (single range child))
    (node : Node) : motive node :=
  Node.rec (motive_1 := motive) (motive_2 := fun nodes => ∀ n ∈ nodes, motive n)
    literal chars (fun range children ih => group range children ih)
    (fun range child ih => single range child ih)
    (fun _ h => absurd h List.not_mem_nil)
    (fun _ _ hd tl n h => (List.mem_cons.1 h).elim (fun e => e ▸ hd) (tl n))
    node

/-! ### Equality -/

mutual

/-- Two nodes are compared part by part. -/
def decEq : (a b : Node) → Decidable (a = b)
  | literal r s, literal r' s' => decidable_of_iff (r = r' ∧ s = s') (by simp)
  | chars r c, chars r' c' => decidable_of_iff (r = r' ∧ c = c') (by simp)
  | group r cs, group r' cs' =>
    letI := decEqAll cs cs'
    decidable_of_iff (r = r' ∧ cs = cs') (by simp)
  | single r c, single r' c' =>
    letI := decEq c c'
    decidable_of_iff (r = r' ∧ c = c') (by simp)
  | literal .., chars .. | literal .., group .. | literal .., single ..
  | chars .., literal .. | chars .., group .. | chars .., single ..
  | group .., literal .. | group .., chars .. | group .., single ..
  | single .., literal .. | single .., chars .. | single .., group .. => isFalse nofun

/-- Two runs of nodes are compared node by node. -/
def decEqAll : (as bs : List Node) → Decidable (as = bs)
  | [], [] => isTrue rfl
  | a :: as, b :: bs =>
    letI := decEq a b
    letI := decEqAll as bs
    decidable_of_iff (a = b ∧ as = bs) (by simp)
  | [], _ :: _ | _ :: _, [] => isFalse nofun

end

instance : DecidableEq Node := decEq

/-! ### All nodes -/

mutual

/-- A node and all nodes below it, each before those below it. -/
def preorder : Node → List Node
  | n@(literal ..) => [n]
  | n@(chars ..) => [n]
  | n@(group _ children) => n :: preorderAll children
  | n@(single _ child) => n :: child.preorder

/-- All nodes of a run, in order. -/
def preorderAll : List Node → List Node
  | [] => []
  | n :: nodes => n.preorder ++ preorderAll nodes

end

@[simp] theorem preorder_literal (range : Range) (text : String) :
    (literal range text).preorder = [literal range text] := rfl

@[simp] theorem preorder_chars (range : Range) (cls : CharClass) :
    (chars range cls).preorder = [chars range cls] := rfl

@[simp] theorem preorder_group (range : Range) (children : List Node) :
    (group range children).preorder = group range children :: preorderAll children := rfl

@[simp] theorem preorder_single (range : Range) (child : Node) :
    (single range child).preorder = single range child :: child.preorder := rfl

@[simp] theorem preorderAll_nil : preorderAll [] = [] := rfl

@[simp] theorem preorderAll_cons (n : Node) (nodes : List Node) :
    preorderAll (n :: nodes) = n.preorder ++ preorderAll nodes := rfl

/-- The nodes of a run are the nodes of its members. -/
theorem preorderAll_eq_flatMap (nodes : List Node) :
    preorderAll nodes = nodes.flatMap preorder := by
  induction nodes with
  | nil => rfl
  | cons n nodes ih => rw [preorderAll_cons, ih, List.flatMap_cons]

end Node

/-! ### Trees -/

deriving instance DecidableEq for Tree

/-- The nodes at the top of a tree, in order. -/
def nodes : Tree → List Node
  | node n => [n]
  | list ns => ns

@[simp] theorem nodes_node (n : Node) : (node n).nodes = [n] := rfl

@[simp] theorem nodes_list (ns : List Node) : (list ns).nodes = ns := rfl

/-- Every node of a tree, a node before those below it. -/
def preorder (t : Tree) : List Node := Node.preorderAll t.nodes

/-- How many nodes a tree has at all depths together. -/
def nodeCount (t : Tree) : Nat := t.preorder.length

/-- The first inverted range in a tree, ranges of literals left out. -/
def inverted? (t : Tree) : Option Range := (t.preorder.filterMap Node.range?).find? Range.inverted

/-- The first inverted range as the error, if there is one. -/
def check (t : Tree) : Except Range Unit :=
  match t.inverted? with
  | some range => .error range
  | none => .ok ()

end Tree

end Moniker
