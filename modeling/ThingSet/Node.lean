import ThingSet.Encoder
import ThingSet.Registry.Basic

/-!
# Nodes

The nodes of a server as it finds them when a request arrives: what their virtual functions
return (`Node`), the lists of the registry (`Registry`) and what a request can change (`World`).
The stored value of every property is apart from that of every other, the elements of a record
array are memory from `value[0]` on, and application code (the callbacks of groups, the functions
that are exposed) works on a state of its own.

* `Registry.findById`, `Registry.findByName`: how a request's endpoint is resolved.
* `Registry.findById_of_pointers`: the registry's own `findById`, on its linked lists, finds the
  same node.
-/

namespace ThingSet

open Interaction Prog

/-- `ThingSetNodeType`, as far as anything asks for it. -/
inductive NodeType
  | hasChildren
  | encodable
  | decodable
  | requestHandler
  | function
  | group
  | record
  | recordMember
  deriving DecidableEq, Repr

/-- `ThingSetCallbackReason`. -/
inductive CallbackReason
  | willRead
  | didRead
  | willWrite
  | didWrite
  deriving DecidableEq, Repr

/-- The bits of `ThingSetAccess` for writing, `anyWrite`. -/
def anyWrite : UInt8 := 0x70

/-- How values of a property's type are encoded and decoded. -/
structure Codec (V : Type) where
  encode : V → Encoding Bool
  decode : V → Decoding (Decoded V)

/-- The classes of nodes: a property, a property that is an array of records, a group with its
callback, the registry's own `OverlayNode`, a function with its parameters and what a call of it
does and encodes, the node of a parameter, and the proxies of record members. -/
inductive NodeKind (ι V A : Type)
  | property (codec : Codec V)
  | recordArray (element : Codec V) (size : ℕ) (size_le : size ≤ sizeMax)
  | group (callback : ι → CallbackReason → A → Bool × A)
  | overlay
  | function (parameters : List (Codec V)) (call : List V → A → A × Encoding Bool)
  | parameter
  | recordMemberProxy
  | recordArrayProxy

/-- A node: what its virtual functions return. -/
structure Node (ι V A : Type) where
  name : Bytes
  id : ℕ
  parentId : ℕ
  type : Bytes
  access : UInt8
  kind : NodeKind ι V A
  id_lt : id < 65536 := by decide
  parentId_lt : parentId < 65536 := by decide

/-- What a request can change. -/
structure World (ι V A : Type) where
  values : ι → V
  elements : ι → ℕ → V
  arguments : ι → List V
  app : A

/-- The registry with its lists. -/
structure Registry (ι V A : Type) where
  node : ι → Node ι V A
  nodeMap : Fin 8 → List ι
  childrenOf : ι → List ι
  rootNode : ι
  metadataNode : ι

section

variable {ι V A : Type}

/-- `tryCastTo`. -/
def NodeKind.tryCastTo : NodeKind ι V A → NodeType → Bool
  | .property _, t => t = .encodable ∨ t = .decodable
  | .recordArray .., t =>
    t = .encodable ∨ t = .decodable ∨ t = .requestHandler ∨ t = .record ∨ t = .hasChildren
  | .group _, t => t = .encodable ∨ t = .group ∨ t = .hasChildren
  | .overlay, t => t = .hasChildren
  | .function .., t => t = .function ∨ t = .hasChildren
  | .parameter, _ => false
  | .recordMemberProxy, t => t = .recordMember
  | .recordArrayProxy, t => t = .recordMember ∨ t = .hasChildren

/-- What the registry asks of a node. -/
def Node.info (n : Node ι V A) : NodeInfo where
  id := n.id
  parentId := n.parentId
  recordMember := n.kind.tryCastTo .recordMember
  hasChildren := n.kind.tryCastTo .hasChildren
  record := n.kind.tryCastTo .record
  id_lt := n.id_lt
  parentId_lt := n.parentId_lt

/-- A node without a type name. -/
def Node.ofIds (name : Bytes) (id parentId : UInt16) (access : UInt8) (kind : NodeKind ι V A) :
    Node ι V A where
  name := name
  id := id.toNat
  parentId := parentId.toNat
  type := []
  access := access
  kind := kind
  id_lt := id.toNat_lt
  parentId_lt := parentId.toNat_lt

/-- The buckets of a node map that holds these nodes. -/
def bucketsOf (node : ι → Node ι V A) (nodes : List ι) (b : Fin 8) : List ι :=
  nodes.filter fun n => bucketOf (node n).info.effectiveId = b

/-- `ThingSetParentNode::invokeCallback`. -/
def NodeKind.invokeCallback (k : NodeKind ι V A) (child : ι) (reason : CallbackReason) (a : A) :
    Bool × A :=
  match k with
  | .group callback => callback child reason a
  | _ => (true, a)

/-! ## Lookup -/

namespace Registry

variable (R : Registry ι V A)

/-- `ThingSetRegistry::findById`. -/
def findById (id : ℕ) : Option ι :=
  (R.nodeMap (bucketOf id)).find? fun n => (R.node n).id == id

/-- The children of a node: a record array does not expose its own. -/
def children (n : ι) : List ι :=
  match (R.node n).kind with
  | .recordArray .. => []
  | _ => R.childrenOf n

/-- `ThingSetParentNode::findByName` on the node `self`, given what the same function does with
the rest of the name on a child. -/
def parentFindByName (rest : ι → Bytes → Option (ι × ℕ)) (self : ι) (name : Bytes) :
    Option (ι × ℕ) :=
  let token := name.takeWhile (· ≠ 0x2F)
  let last := token.length = name.length
  if (R.node self).name = token ∧ last then some (self, sizeMax)
  else
    match (R.children self).find? fun child => (R.node child).name = token with
    | none => none
    | some child =>
      if last then some (child, sizeMax)
      else if (R.node child).kind.tryCastTo .hasChildren then
        rest child (name.drop (token.length + 1))
      else none

/-- `findByName` on a node with children: record arrays take a name that starts with a digit as an
index. The name gets shorter with every call. -/
def findByNameFrom : ℕ → ι → Bytes → Option (ι × ℕ)
  | 0, _, _ => none
  | fuel + 1, self, name =>
    let found := R.parentFindByName (findByNameFrom fuel) self name
    match (R.node self).kind with
    | .recordArray _ size _ =>
      if 0x30 ≤ name.headD 0 ∧ name.headD 0 ≤ 0x39 then
        if atoi name < size then some (self, atoi name) else none
      else found
    | _ => found

/-- `findByName` of a parent node: the node and the index that are found. -/
def findByNameIn (self : ι) (name : Bytes) : Option (ι × ℕ) :=
  R.findByNameFrom (name.length + 1) self name

/-- `ThingSetRegistry::findByName`. -/
def findByName (name : Bytes) : Option (ι × ℕ) := R.findByNameIn R.rootNode name

/-! ## The lists of the pointer registry -/

/-- The registry's own linked lists hold the lists of `R`. -/
structure OfPointers (N : Nodes ι) (r : ThingSetRegistry ι) : Prop where
  info : ∀ n, N.info n = (R.node n).info
  nodeMap : ∀ b, Chain.Path r.list (r.nodeMap b).head (R.nodeMap b)

variable {R} {N : Nodes ι} {r : ThingSetRegistry ι}

/-- The registry's own lookup finds the same node. -/
theorem findById_of_pointers [Fintype ι] (h : R.OfPointers N r) (id : ℕ) :
    r.findById N id = some (R.findById id) := by
  have hpath := h.nodeMap (bucketOf id)
  have hid : (fun n => (N.info n).id == id) = fun n => (R.node n).id == id :=
    funext fun n => by rw [h.info, Node.info]
  rw [ThingSetRegistry.findById, ThingSetRegistry.findByIdInNodeList, hid,
    Chain.search_of_path _ hpath hpath.length_lt, findById]

end Registry

end

end ThingSet
