import ThingSet.IntrusiveLinkedList
import Mathlib.Data.Fin.Basic
import Mathlib.Data.List.FinRange
import Mathlib.Data.Fintype.Defs

/-!
# The registry

Nodes are objects `ι`; what their virtual functions return to the registry does not change over
their life (`NodeInfo`). The registry's state is every pointer it works on: the two links in each
node, the list of each lookup bucket and the child list of each parent. A loop along a list that
does not end gives nothing.

`registerNode` and `unregisterNode` share one function in the source, parametrised by what is done
with the lookup bucket and what is done with the parent; so do they here.
-/

namespace ThingSet

open Chain IntrusiveLinkedList

/-- What the virtual functions of a node return: `getId`, `getParentId` and what `tryCastTo` says
to the types the registry asks for. -/
structure NodeInfo where
  id : ℕ
  parentId : ℕ
  recordMember : Bool := false
  hasChildren : Bool := false
  record : Bool := false
  id_lt : id < 65536 := by decide
  parentId_lt : parentId < 65536 := by decide
  deriving DecidableEq, Repr

namespace NodeInfo

/-- A node without anything that the registry asks for. -/
def ofIds (id parentId : UInt16) : NodeInfo where
  id := id.toNat
  parentId := parentId.toNat
  id_lt := id.toNat_lt
  parentId_lt := parentId.toNat_lt

/-- The node with children. -/
def withChildren (n : NodeInfo) : NodeInfo := { n with hasChildren := true }

/-- The node as a record array. -/
def asRecord (n : NodeInfo) : NodeInfo := { n with hasChildren := true, record := true }

/-- The node as a record member. -/
def asRecordMember (n : NodeInfo) : NodeInfo := { n with recordMember := true }

end NodeInfo

/-- The nodes of small registries. -/
inductive SmallNode
  | root
  | metadata
  | a
  | b
  | c
  | d
  deriving DecidableEq, Repr

instance : Fintype SmallNode where
  elems := {.root, .metadata, .a, .b, .c, .d}
  complete n := by cases n <;> decide

/-- `calculateId`: the id of a record member among all ids. -/
def calculateId (id parentId : ℕ) : ℕ :=
  let offset := (parentId % 255) * 0x10000
  offset + id + 1

/-- `effectiveId`. -/
def NodeInfo.effectiveId (n : NodeInfo) : ℕ :=
  if n.recordMember then calculateId n.id n.parentId else n.id

/-- The nodes of a program, the two that the registry itself owns among them. -/
structure Nodes (ι : Type) where
  info : ι → NodeInfo
  rootNode : ι
  metadataNode : ι
  rootNode_info : info rootNode = { id := 0, parentId := 0, hasChildren := true }
  metadataNode_info : info metadataNode = { id := 25, parentId := 0, hasChildren := true }

/-- `id % NODE_MAP_LOOKUP_BUCKETS`. -/
def bucketOf (id : ℕ) : Fin 8 := ⟨id % 8, Nat.mod_lt _ (by decide)⟩

/-- `ThingSetRegistry`, with the links `list` and `children` in the nodes and the member
`_children` of the parents. -/
structure ThingSetRegistry (ι : Type) where
  list : ι → Option ι
  children : ι → Option ι
  nodeMap : Fin 8 → IntrusiveLinkedList ι
  childrenOf : ι → IntrusiveLinkedList ι

namespace ThingSetRegistry

variable {ι : Type} [DecidableEq ι] (N : Nodes ι) (r : ThingSetRegistry ι)

/-- `push_back` on a list of the node map. -/
def pushNode (b : Fin 8) (node : ι) : ThingSetRegistry ι :=
  let p := pushBack r.list (r.nodeMap b) node
  { r with list := p.1, nodeMap := Function.update r.nodeMap b p.2 }

/-- `ThingSetParentNode::addChild`. -/
def addChild (parent child : ι) : ThingSetRegistry ι :=
  let p := pushBack r.children (r.childrenOf parent) child
  { r with children := p.1, childrenOf := Function.update r.childrenOf parent p.2 }

/-- The registry with nothing registered. -/
def empty : ThingSetRegistry ι := ⟨fun _ => none, fun _ => none, fun _ => {}, fun _ => {}⟩

/-- The constructor: the registry's own nodes are registered by hand. -/
def initial : ThingSetRegistry ι :=
  (empty.pushNode (bucketOf (N.info N.rootNode).id) N.rootNode).pushNode
    (bucketOf (N.info N.metadataNode).id) N.metadataNode

variable [Fintype ι]

/-- The rounds of a loop along a list: one for every node there is, and one to see the end. -/
abbrev rounds (ι : Type) [Fintype ι] : ℕ := Fintype.card ι + 1

/-- `ThingSetRegistry::findByIdInNodeList`. -/
def findByIdInNodeList (list : IntrusiveLinkedList ι) (id : ℕ) : Option (Option ι) :=
  search r.list (fun n => (N.info n).id == id) (rounds ι) list.head

/-- `ThingSetRegistry::findById(id)`. -/
def findById (id : ℕ) : Option (Option ι) :=
  r.findByIdInNodeList N (r.nodeMap (bucketOf id)) id

/-- `ThingSetRegistry::findParentById`. -/
def findParentById (id : ℕ) : Option (Option ι) :=
  (r.findById N id).map (·.filter fun n => (N.info n).hasChildren)

/-- `ThingSetRegistry::findById(id, parentId)`. -/
def findByIdAndParent (id parentId : ℕ) : Option (Option ι) := do
  match ← r.findParentById N parentId with
  | none => some none
  | some parent =>
    if (N.info parent).record then
      let list := r.nodeMap (bucketOf (calculateId id parentId))
      search r.list (fun n => (N.info n).id == id && (N.info n).parentId == parentId)
        (rounds ι) list.head
    else some none

/-- The nodes in the order of the registry's iterator: bucket by bucket. -/
def nodes : Option (List ι) :=
  ((List.finRange 8).mapM fun b => traverse r.list (rounds ι) (r.nodeMap b).head).map List.flatten

/-- `registerOrUnregisterNode`. -/
def registerOrUnregisterNode (node : ι)
    (nodeListAction : ThingSetRegistry ι → Fin 8 → ι → Option (ThingSetRegistry ι))
    (parentNodeAction : ThingSetRegistry ι → ι → ι → Option (ThingSetRegistry ι)) :
    Option (ThingSetRegistry ι) := do
  let id := (N.info node).effectiveId
  let r ← nodeListAction r (bucketOf id) node
  if (N.info node).parentId ≠ id then
    match ← r.findParentById N (N.info node).parentId with
    | some parent => parentNodeAction r parent node
    | none => some r
  else some r

/-- What `registerNode` does with the bucket: a node with the effective id of another is left
out. -/
def registerInList (b : Fin 8) (node : ι) : Option (ThingSetRegistry ι) := do
  match ← search r.list (fun n => (N.info n).effectiveId == (N.info node).effectiveId) (rounds ι)
      (r.nodeMap b).head with
  | some _ => some r
  | none => some (r.pushNode b node)

/-- The second half of `registerNode`: the nodes that name `node` as their parent. -/
def adoptChildren (node : ι) : Option (ThingSetRegistry ι) :=
  if (N.info node).hasChildren then
    r.nodes.map fun ns =>
      (ns.filter fun n => (N.info n).parentId == (N.info node).id).foldl
        (fun r n => r.addChild node n) r
  else some r

/-- `ThingSetRegistry::registerNode`. -/
def registerNode (node : ι) : Option (ThingSetRegistry ι) := do
  let r ← r.registerOrUnregisterNode N node (fun r b n => r.registerInList N b n)
    (fun r p n => some (r.addChild p n))
  r.adoptChildren N node

/-- What `unregisterNode` does with the bucket. -/
def removeNode (b : Fin 8) (node : ι) : Option (ThingSetRegistry ι) :=
  (IntrusiveLinkedList.remove r.list (r.nodeMap b) node).map fun p =>
    { r with list := p.2.1, nodeMap := Function.update r.nodeMap b p.2.2 }

/-- `ThingSetParentNode::removeChild`. -/
def removeChild (parent child : ι) : Option (ThingSetRegistry ι) :=
  (IntrusiveLinkedList.remove r.children (r.childrenOf parent) child).map fun p =>
    { r with children := p.2.1, childrenOf := Function.update r.childrenOf parent p.2.2 }

/-- `ThingSetRegistry::unregisterNode`. -/
def unregisterNode (node : ι) : Option (ThingSetRegistry ι) :=
  r.registerOrUnregisterNode N node (fun r b n => r.removeNode b n)
    (fun r p n => r.removeChild p n)

end ThingSetRegistry

/-! ## Effective ids -/

section EffectiveId

variable {n m : NodeInfo}

theorem NodeInfo.effectiveId_of_recordMember (h : n.recordMember = true) :
    n.effectiveId = n.parentId % 255 * 65536 + n.id + 1 := by
  rw [effectiveId, if_pos h, calculateId]

theorem NodeInfo.effectiveId_of_ordinary (h : n.recordMember = false) : n.effectiveId = n.id := by
  rw [effectiveId, h, if_neg Bool.false_ne_true]

/-- A record member is never in the bucket of its raw id: the offset is a multiple of eight. -/
theorem NodeInfo.recordMember_of_bucketOf (h : bucketOf n.effectiveId = bucketOf n.id) :
    n.recordMember = false := by
  by_contra hm
  rw [effectiveId_of_recordMember (by simpa using hm)] at h
  simp only [bucketOf, Fin.mk.injEq] at h
  omega

end EffectiveId

end ThingSet
