import Burrow.Lib.Machine
import Burrow.Lib.IntrusiveList
import Burrow.Memory.Dictionary

/-!
# The dictionary in memory

`backends/memory/dictionary.c` once more, with the nodes, their keys and the dictionaries at
their addresses: a node has its `previous` and `next` pointers and points to its key, which is
a block of its own, and `first` and `last` of a dictionary lead to nodes. To follow `NULL`, to
access or to free what is not there (any more), and to leave the range of an `int` are errors.

A `malloc` is answered by the caller of a function here, with an address or with `NULL`.
The fields of a new node are all written before anything reads them.
-/

set_option autoImplicit false

namespace Burrow.Memory.Chained

/-- Where a block lies. `NULL` is `none` of `Option Address`. -/
abbrev Address := Nat

/-- A `const char *` that is not `NULL`: it leads to a string of the caller, or to one in a
block. -/
inductive Chars where
  | given (text : String)
  | block (a : Address)
deriving DecidableEq, Repr

/-- `dictionary_node_st` -/
structure Node where
  key : Address
  previous : Option Address
  next : Option Address
  data : Option Address
deriving DecidableEq, Repr

/-- `dictionary_st`, without the burrow structure. -/
structure DictionarySt where
  first : Option Address
  last : Option Address
  length : Int
deriving DecidableEq, Repr

structure Heap where
  nodes : Address → Option Node
  dictionaries : Address → Option DictionarySt
  /-- the blocks of strings; the keys of nodes are among them -/
  texts : Address → Option String

/-- Undefined behaviour that the functions can run into. -/
inductive DictionaryFault where
  | nullDereference
  /-- what is accessed or freed is no node, no dictionary or no string -/
  | danglingPointer
  | intOverflow
deriving DecidableEq, Repr

/-- `INT_MAX` -/
def intMax : Int := 2147483647

/-- `INT_MIN` -/
def intMin : Int := -2147483648

def increment (n : Int) : Except DictionaryFault Int :=
  if n < intMax then .ok (n + 1) else .error .intOverflow

def decrement (n : Int) : Except DictionaryFault Int :=
  if intMin < n then .ok (n - 1) else .error .intOverflow

namespace Heap

def empty : Heap := ⟨fun _ => none, fun _ => none, fun _ => none⟩

/-- What a node pointer leads to. -/
def readNode (x : Option Address) (heap : Heap) : Except DictionaryFault Node :=
  match x with
  | none => .error .nullDereference
  | some a =>
      match heap.nodes a with
      | some node => .ok node
      | none => .error .danglingPointer

def readDictionary (self : Address) (heap : Heap) : Except DictionaryFault DictionarySt :=
  match heap.dictionaries self with
  | some dictionary => .ok dictionary
  | none => .error .danglingPointer

def readText (a : Address) (heap : Heap) : Except DictionaryFault String :=
  match heap.texts a with
  | some text => .ok text
  | none => .error .danglingPointer

/-- The string that a pointer leads to. -/
def readChars (chars : Chars) (heap : Heap) : Except DictionaryFault String :=
  match chars with
  | .given text => .ok text
  | .block a => heap.readText a

def writeNode (a : Address) (node : Node) (heap : Heap) : Heap :=
  { heap with nodes := Function.update heap.nodes a (some node) }

def writeDictionary (self : Address) (dictionary : DictionarySt) (heap : Heap) : Heap :=
  { heap with dictionaries := Function.update heap.dictionaries self (some dictionary) }

def writeText (a : Address) (text : String) (heap : Heap) : Heap :=
  { heap with texts := Function.update heap.texts a (some text) }

def freeNode (a : Address) (heap : Heap) : Heap :=
  { heap with nodes := Function.update heap.nodes a none }

def freeText (a : Address) (heap : Heap) : Except DictionaryFault Heap :=
  match heap.texts a with
  | some _ => .ok { heap with texts := Function.update heap.texts a none }
  | none => .error .danglingPointer

/-- The node that a link leads to is changed, or the dictionary where the link is `NULL`. -/
def modifyEnd (self : Address) (x : Option Address) (onDictionary : DictionarySt → DictionarySt)
    (onNode : Node → Node) (heap : Heap) : Except DictionaryFault Heap :=
  match x with
  | none => do
      let dictionary ← heap.readDictionary self
      pure (heap.writeDictionary self (onDictionary dictionary))
  | some a => do
      let node ← heap.readNode (some a)
      pure (heap.writeNode a (onNode node))

/-- `x->next = y`, or `self->first = y` where `x` is `NULL`. -/
def setNext (self : Address) (x y : Option Address) (heap : Heap) : Except DictionaryFault Heap :=
  heap.modifyEnd self x ({ · with first := y }) ({ · with next := y })

/-- `x->previous = y`, or `self->last = y` where `x` is `NULL`. -/
def setPrevious (self : Address) (x y : Option Address) (heap : Heap) :
    Except DictionaryFault Heap :=
  heap.modifyEnd self x ({ · with last := y }) ({ · with previous := y })

end Heap

/-! ## Nodes -/

/-- The answers of the two allocations in `dictionary_add`. -/
structure AddBlocks where
  node : Option Address
  key : Option Address
deriving DecidableEq, Repr

/-- A dictionary without nodes. -/
def DictionarySt.new : DictionarySt := { first := none, last := none, length := 0 }

/-- `dictionary_init` -/
def dictionaryInit (dest alloc : Option Address) (heap : Heap) : Option Address × Heap :=
  match dest.or alloc with
  | none => (none, heap)
  | some self => (some self, heap.writeDictionary self DictionarySt.new)

/-- `self->last->next = new_node`, where there is a last node. -/
def linkLast (self : Address) (last : Option Address) (newNode : Address) (heap : Heap) :
    Except DictionaryFault Heap :=
  if last = none then .ok heap else heap.setNext self last (some newNode)

/-- `dictionary_add` -/
def dictionaryAdd (blocks : AddBlocks) (self : Option Address) (key : Chars)
    (data : Option Address) (heap : Heap) :
    Except DictionaryFault (Option Address × Heap) :=
  match self, blocks.node with
  | none, _ => .ok (none, heap)
  | some _, none => .ok (none, heap)
  | some self, some newNode => do
      let text ← heap.readChars key
      match blocks.key with
      -- the new node is freed again
      | none => pure (none, heap)
      | some newKey =>
          let dictionary ← heap.readDictionary self
          let heap := (heap.writeText newKey text).writeNode newNode
            { key := newKey, previous := dictionary.last, next := none, data := data }
          let heap ← linkLast self dictionary.last newNode heap
          let length ← increment dictionary.length
          pure (some newNode, heap.writeDictionary self
            { first := dictionary.first.or (some newNode)
              last := some newNode
              length := length })

/-- The search loop of `dictionary_get`: `left` is `self->length - i`. -/
def dictionaryGetLoop (key : Chars) : Nat → Option Address → Heap →
    Except DictionaryFault (Option Address)
  | 0, currentNode, _ => .ok currentNode
  | left + 1, currentNode, heap => do
      let node ← heap.readNode currentNode
      let text ← heap.readText node.key
      if text = (← heap.readChars key) then .ok currentNode
      else dictionaryGetLoop key left node.next heap

/-- `dictionary_get(self, key, SEARCH)` -/
def dictionaryGet (self : Option Address) (key : Option Chars) (heap : Heap) :
    Except DictionaryFault (Option Address) :=
  match self, key with
  | some self, some key => do
      let dictionary ← heap.readDictionary self
      dictionaryGetLoop key dictionary.length.toNat dictionary.first heap
  | _, _ => .ok none

/-- `dictionary_get(self, key, CREATE)` -/
def dictionaryGetCreate (blocks : AddBlocks) (alloc : Option Address) (self : Option Address)
    (key : Option Chars) (heap : Heap) : Except DictionaryFault (Option Address × Heap) :=
  match self, key with
  | some self, some key => do
      match ← dictionaryGet (some self) (some key) heap with
      | some currentNode => pure (some currentNode, heap)
      | none =>
          let (temp, heap) ← dictionaryAdd blocks (some self) key none heap
          match temp with
          | none => pure (none, heap)
          | some temp =>
              match dictionaryInit none alloc heap with
              | (none, heap) => pure (none, heap)
              | (some messages, heap) =>
                  let node ← heap.readNode (some temp)
                  pure (some temp, heap.writeNode temp { node with data := some messages })
  | _, _ => .ok (none, heap)

/-- `dictionary_delete_node` -/
def dictionaryDeleteNode (self : Option Address) (key : Option Chars) (heap : Heap) :
    Except DictionaryFault Heap :=
  match self with
  | none => .ok heap
  | some self => do
      match ← dictionaryGet (some self) key heap with
      | none => pure heap
      | some currentNode =>
          let node ← heap.readNode (some currentNode)
          let heap ← heap.setNext self node.previous node.next
          let node ← heap.readNode (some currentNode)
          let heap ← heap.setPrevious self node.next node.previous
          let node ← heap.readNode (some currentNode)
          let heap ← heap.freeText node.key
          let heap := heap.freeNode currentNode
          let dictionary ← heap.readDictionary self
          let length ← decrement dictionary.length
          pure (heap.writeDictionary self { dictionary with length := length })

/-! ## Ranges -/

/-- The loop of `dictionary_delete`. `tests` bounds how often the condition of the loop
can be tested before `u_bound` leaves its range. -/
def dictionaryDeleteLoop (self : Address) : Nat → Int → Option Address → Heap →
    Except DictionaryFault Heap
  | 0, _, _, _ => .error .intOverflow
  | tests + 1, uBound, currentNode, heap =>
      if currentNode = none ∨ uBound = 0 then .ok heap
      else do
        let node ← heap.readNode currentNode
        let heap ← dictionaryDeleteNode (some self) (some (.block node.key)) heap
        let uBound ← decrement uBound
        dictionaryDeleteLoop self tests uBound node.next heap

/-- `dictionary_delete` -/
def dictionaryDelete (self : Option Address) (lBoundKey : Option Chars) (uBound : Int)
    (heap : Heap) : Except DictionaryFault Heap :=
  match self with
  | none => .ok heap
  | some self => do
      let dictionary ← heap.readDictionary self
      if dictionary.length = 0 then pure heap
      else
        let found ← dictionaryGet (some self) lBoundKey heap
        dictionaryDeleteLoop self (uBound - intMin + 1).toNat uBound
          (found.or dictionary.first) heap

/-- The loop of `dictionary_iter`. Where no answer of `malloc` is left, it is `NULL`. -/
def dictionaryIterLoop (dictionary : Address) : Nat → List AddBlocks → Option Address → Heap →
    Except DictionaryFault Heap
  | 0, _, _, heap => .ok heap
  | uBound + 1, blocks, currentNode, heap =>
      if currentNode = none then .ok heap
      else do
        let node ← heap.readNode currentNode
        let (added, heap) ← dictionaryAdd (blocks.headD ⟨none, none⟩) (some dictionary)
          (.block node.key) node.data heap
        match added with
        | none =>
            let copied ← heap.readDictionary dictionary
            dictionaryDelete (some dictionary) none copied.length heap
        | some _ =>
            let node ← heap.readNode currentNode
            dictionaryIterLoop dictionary uBound blocks.tail node.next heap

/-- `dictionary_iter`; `DICTIONARY_LENGTH` is `0`. -/
def dictionaryIter (alloc : Option Address) (blocks : List AddBlocks) (self : Option Address)
    (lBoundKey : Option Chars) (uBound : UInt32) (heap : Heap) :
    Except DictionaryFault (Option Address × Heap) :=
  match self with
  | none => .ok (none, heap)
  | some self =>
      match dictionaryInit none alloc heap with
      | (none, heap) => .ok (none, heap)
      | (some dictionary, heap) => do
          let found ← dictionaryGet (some self) lBoundKey heap
          let source ← heap.readDictionary self
          let uBound := if uBound = 0 then UInt32.ofInt source.length else uBound
          let heap ← dictionaryIterLoop dictionary uBound.toNat blocks
            (found.or source.first) heap
          pure (some dictionary, heap)

end Burrow.Memory.Chained
