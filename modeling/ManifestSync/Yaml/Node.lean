import ManifestSync.Yaml.Token

/-!
# Nodes of a document

A `Node` is what the tokens of a document spell out: scalars, sequences and mappings with their
anchors and tags, and aliases. `Node.ofTokens?` reads the one document of a text. A node type is
generic in what an alias holds: a name as it is written, or the number of the node it stands for
(`Node.link?`).
-/

namespace ManifestSync.Yaml

/-- The anchor and the tag of a node. -/
structure Properties where
  anchor : Option (List Char) := none
  tag : Option (List Char) := none
  deriving DecidableEq, Repr, Inhabited

/-- Whether a node has an anchor or a tag. -/
def Properties.any (p : Properties) : Bool := p.anchor.isSome || p.tag.isSome

/-- A node of a document, with aliases that hold a reference. -/
inductive Node (ref : Type) where
  | alias (target : ref)
  | scalar (props : Properties) (text : List Char) (plain : Bool)
  | sequence (props : Properties) (items : List (Node ref))
  | mapping (props : Properties) (pairs : List (Node ref × Node ref))
  deriving Repr, Inhabited

namespace Node

/-- A node without text. -/
def empty {ref : Type} : Node ref := .scalar {} [] true

/-! ## From tokens to nodes -/

/-- What tag handles stand for. -/
abbrev Handles := List (List Char × List Char)

/-- The handles that every document has. -/
def standardHandles : Handles :=
  [("!".toList, "!".toList), ("!!".toList, "tag:yaml.org,2002:".toList)]

/-- The tag that a handle and a suffix stand for. -/
def resolveTag? (handles : Handles) (handle suffix : List Char) : Option (List Char) :=
  if handle.isEmpty then some suffix
  else (handles.find? (·.1 == handle)).map fun (_, stem) => stem ++ suffix

/-- Reads the anchor and the tag of a node, in either order. -/
def properties? (handles : Handles) : List Token → Option (Properties × List Token)
  | .anchor name :: .tag handle suffix :: rest => do
    return (⟨some name, some (← resolveTag? handles handle suffix)⟩, rest)
  | .anchor name :: rest => some (⟨some name, none⟩, rest)
  | .tag handle suffix :: .anchor name :: rest => do
    return (⟨some name, some (← resolveTag? handles handle suffix)⟩, rest)
  | .tag handle suffix :: rest => do
    return (⟨none, some (← resolveTag? handles handle suffix)⟩, rest)
  | rest => some ({}, rest)

/-- A scalar that is written out; the mark alone is no tag of it. -/
def ofScalar (props : Properties) (text : List Char) (plain : Bool) : Node (List Char) :=
  if props.tag == some ['!'] then .scalar { props with tag := none } text plain
  else .scalar props text plain

/-- Whether the next token leaves the item of a block sequence empty. -/
def endsItem : List Token → Bool
  | .blockEntry :: _ => true
  | .blockEnd :: _ => true
  | [] => true
  | _ => false

/-- Whether the next token leaves the item of a sequence without indentation empty. -/
def endsFlushItem : List Token → Bool
  | .key :: _ => true
  | .value :: _ => true
  | tokens => endsItem tokens

/-- Whether the next token leaves a key or value of a block mapping empty. -/
def endsPairPart : List Token → Bool
  | .key :: _ => true
  | .value :: _ => true
  | .blockEnd :: _ => true
  | [] => true
  | _ => false

/-- Whether the next token leaves a key or value between brackets empty. -/
def endsFlowPart (closing : Token) : List Token → Bool
  | .flowEntry :: _ => true
  | token :: _ => token == closing
  | [] => true

mutual

/-- Reads a node. `block` admits block collections, `flush` a sequence that is not indented more
than the mapping around it. -/
def read? (handles : Handles) (block flush : Bool) : Nat → List Token →
    Option (Node (List Char) × List Token)
  | 0, _ => none
  | _ + 1, .alias name :: rest => some (.alias name, rest)
  | fuel + 1, tokens => do
    let (props, rest) ← properties? handles tokens
    match rest with
    | .scalar text plain :: rest => return (ofScalar props text plain, rest)
    | .flowSequenceStart :: rest =>
      let (items, rest) ← readFlowItems? handles true fuel rest
      return (.sequence props items, rest)
    | .flowMappingStart :: rest =>
      let (pairs, rest) ← readFlowPairs? handles true fuel rest
      return (.mapping props pairs, rest)
    | .blockEntry :: rest =>
      if flush then
        let (items, rest) ← readFlushItems? handles fuel (.blockEntry :: rest)
        return (.sequence props items, rest)
      else if props.any then return (.scalar props [] true, .blockEntry :: rest)
      else none
    | .blockSequenceStart :: rest =>
      if block then
        let (items, rest) ← readItems? handles fuel rest
        return (.sequence props items, rest)
      else if props.any then return (.scalar props [] true, .blockSequenceStart :: rest)
      else none
    | .blockMappingStart :: rest =>
      if block then
        let (pairs, rest) ← readPairs? handles fuel rest
        return (.mapping props pairs, rest)
      else if props.any then return (.scalar props [] true, .blockMappingStart :: rest)
      else none
    | rest => if props.any then return (.scalar props [] true, rest) else none

/-- Reads the items of a block sequence and its end. -/
def readItems? (handles : Handles) : Nat → List Token →
    Option (List (Node (List Char)) × List Token)
  | 0, _ => none
  | _ + 1, .blockEnd :: rest => some ([], rest)
  | fuel + 1, .blockEntry :: rest => do
    let (item, rest) ←
      if endsItem rest then some (empty, rest) else read? handles true false fuel rest
    let (items, rest) ← readItems? handles fuel rest
    return (item :: items, rest)
  | _ + 1, _ => none

/-- Reads the items of a sequence without indentation. -/
def readFlushItems? (handles : Handles) : Nat → List Token →
    Option (List (Node (List Char)) × List Token)
  | 0, _ => none
  | fuel + 1, .blockEntry :: rest => do
    let (item, rest) ←
      if endsFlushItem rest then some (empty, rest) else read? handles true false fuel rest
    let (items, rest) ← readFlushItems? handles fuel rest
    return (item :: items, rest)
  | _ + 1, rest => some ([], rest)

/-- Reads a key or value of a block mapping, which may be empty. -/
def readPairPart? (handles : Handles) : Nat → List Token →
    Option (Node (List Char) × List Token)
  | 0, _ => none
  | fuel + 1, tokens =>
    if endsPairPart tokens then some (empty, tokens) else read? handles true true fuel tokens

/-- Reads the value of a pair in a block mapping, if the pair has one. -/
def readValue? (handles : Handles) : Nat → List Token → Option (Node (List Char) × List Token)
  | 0, _ => none
  | fuel + 1, .value :: rest => readPairPart? handles fuel rest
  | _ + 1, rest => some (empty, rest)

/-- Reads the pairs of a block mapping and its end. -/
def readPairs? (handles : Handles) : Nat → List Token →
    Option (List (Node (List Char) × Node (List Char)) × List Token)
  | 0, _ => none
  | _ + 1, .blockEnd :: rest => some ([], rest)
  | fuel + 1, .key :: rest => do
    let (key, rest) ← readPairPart? handles fuel rest
    let (value, rest) ← readValue? handles fuel rest
    let (pairs, rest) ← readPairs? handles fuel rest
    return ((key, value) :: pairs, rest)
  | _ + 1, _ => none

/-- Reads a key or value between brackets, which may be empty. -/
def readFlowPart? (handles : Handles) (closing : Token) : Nat → List Token →
    Option (Node (List Char) × List Token)
  | 0, _ => none
  | fuel + 1, tokens =>
    if endsFlowPart closing tokens then some (empty, tokens)
    else read? handles false false fuel tokens

/-- Reads the value of a pair between brackets, if the pair has one. -/
def readFlowValue? (handles : Handles) (closing : Token) : Nat → List Token →
    Option (Node (List Char) × List Token)
  | 0, _ => none
  | fuel + 1, .value :: rest => readFlowPart? handles closing fuel rest
  | _ + 1, rest => some (empty, rest)

/-- Reads an item between square brackets. A pair there is a mapping of its own; if its key is
empty, the token behind the question mark is passed over. -/
def readFlowItem? (handles : Handles) : Nat → List Token → Option (Node (List Char) × List Token)
  | 0, _ => none
  | fuel + 1, .key :: rest => do
    let (key, rest) ←
      match rest with
      | .value :: rest => some (empty, rest)
      | _ =>
        if endsFlowPart .flowSequenceEnd rest then some (empty, rest.drop 1)
        else read? handles false false fuel rest
    let (value, rest) ← readFlowValue? handles .flowSequenceEnd fuel rest
    return (.mapping {} [(key, value)], rest)
  | fuel + 1, tokens => read? handles false false fuel tokens

/-- Reads the items between square brackets and the closing one. -/
def readFlowItems? (handles : Handles) (first : Bool) : Nat → List Token →
    Option (List (Node (List Char)) × List Token)
  | 0, _ => none
  | _ + 1, .flowSequenceEnd :: rest => some ([], rest)
  | fuel + 1, tokens => do
    let tokens ← match first, tokens with
      | true, _ => some tokens
      | false, .flowEntry :: rest => some rest
      | false, _ => none
    match tokens with
    | .flowSequenceEnd :: rest => return ([], rest)
    | _ =>
      let (item, rest) ← readFlowItem? handles fuel tokens
      let (items, rest) ← readFlowItems? handles false fuel rest
      return (item :: items, rest)

/-- Reads a pair between curly brackets. -/
def readFlowPair? (handles : Handles) : Nat → List Token →
    Option ((Node (List Char) × Node (List Char)) × List Token)
  | 0, _ => none
  | fuel + 1, .key :: rest => do
    let (key, rest) ←
      match rest with
      | .value :: _ => some (empty, rest)
      | _ => readFlowPart? handles .flowMappingEnd fuel rest
    let (value, rest) ← readFlowValue? handles .flowMappingEnd fuel rest
    return ((key, value), rest)
  | fuel + 1, tokens => do
    let (key, rest) ← read? handles false false fuel tokens
    return ((key, empty), rest)

/-- Reads the pairs between curly brackets and the closing one. -/
def readFlowPairs? (handles : Handles) (first : Bool) : Nat → List Token →
    Option (List (Node (List Char) × Node (List Char)) × List Token)
  | 0, _ => none
  | _ + 1, .flowMappingEnd :: rest => some ([], rest)
  | fuel + 1, tokens => do
    let tokens ← match first, tokens with
      | true, _ => some tokens
      | false, .flowEntry :: rest => some rest
      | false, _ => none
    match tokens with
    | .flowMappingEnd :: rest => return ([], rest)
    | _ =>
      let (pair, rest) ← readFlowPair? handles fuel tokens
      let (pairs, rest) ← readFlowPairs? handles false fuel rest
      return (pair :: pairs, rest)

end

/-! ## Documents -/

/-- What the directives in front of a document have declared. -/
structure Directives where
  versioned : Bool := false
  handles : Handles := []

/-- Reads the directives in front of a document. The version may be given once, and each handle. -/
def directives? : Directives → List Token → Option (Directives × List Token)
  | d, .version major minor :: rest =>
    if d.versioned || major != 1 || (minor != 1 && minor != 2) then none
    else directives? { d with versioned := true } rest
  | d, .tagDirective handle stem :: rest =>
    if d.handles.any (·.1 == handle) then none
    else directives? { d with handles := d.handles ++ [(handle, stem)] } rest
  | d, rest => some (d, rest)

/-- Whether there are only marks of a document's end. -/
def onlyEnds (tokens : List Token) : Bool := tokens.all (· == .documentEnd)

/-- The node of the one document that some tokens spell out; no tokens are an empty document. -/
def ofTokens? (tokens : List Token) : Option (Node (List Char)) := do
  let (declared, body) ← directives? {} tokens
  let handles := declared.handles ++ standardHandles
  let fuel := 4 * tokens.length + 4
  match tokens, body with
  | [], _ => return empty
  | _, .documentStart :: rest =>
    match rest with
    | [] => return empty
    | .documentEnd :: rest => if onlyEnds rest then return empty else none
    | _ =>
      let (node, rest) ← read? handles true false fuel rest
      if onlyEnds rest then return node else none
  | _, body =>
    if body.length < tokens.length then none
    else
      let (node, rest) ← read? handles true false fuel body
      if onlyEnds rest then return node else none

/-! ## Aliases -/

/-- The anchors met so far, each with the number of the node that it names. -/
abbrev Anchors := List (List Char × Nat)

/-- Gives a name to the next node: its number is the number of names that are known before. -/
def Anchors.add (anchors : Anchors) (name : List Char) : Nat × Anchors :=
  let number := anchors.length
  if anchors.any (·.1 == name) then
    (number, anchors.map fun a => if a.1 == name then (name, number) else a)
  else (number, anchors ++ [(name, number)])

/-- A node with numbers for its aliases, the anchors that are known behind it, and the nodes in it
that have an anchor, outer ones first. -/
structure Linked where
  node : Node Nat
  anchors : Anchors
  named : List (Nat × Node Nat)

/-- Names a node, if it has an anchor. -/
def Linked.name (number : Option Nat) (l : Linked) : Linked :=
  match number with
  | some n => { l with named := (n, l.node) :: l.named }
  | none => l

/-- The number of the anchor of a node, and the anchors that are known behind it. -/
def Properties.enter (props : Properties) (anchors : Anchors) : Option Nat × Anchors :=
  match props.anchor with
  | some name =>
    let (n, anchors) := anchors.add name
    (some n, anchors)
  | none => (none, anchors)

mutual

/-- Puts numbers in place of the names of aliases. An alias stands for the node that its name was
last given to before it. -/
def link? (anchors : Anchors) : Node (List Char) → Option Linked
  | .alias name => (anchors.find? (·.1 == name)).map fun a => ⟨.alias a.2, anchors, []⟩
  | .scalar props text plain =>
    let (number, anchors) := Properties.enter props anchors
    some (Linked.name number ⟨.scalar props text plain, anchors, []⟩)
  | .sequence props items => do
    let (number, anchors) := Properties.enter props anchors
    let (items, anchors, named) ← linkItems? anchors items
    return Linked.name number ⟨.sequence props items, anchors, named⟩
  | .mapping props pairs => do
    let (number, anchors) := Properties.enter props anchors
    let (pairs, anchors, named) ← linkPairs? anchors pairs
    return Linked.name number ⟨.mapping props pairs, anchors, named⟩

/-- The same for the items of a sequence. -/
def linkItems? (anchors : Anchors) : List (Node (List Char)) →
    Option (List (Node Nat) × Anchors × List (Nat × Node Nat))
  | [] => some ([], anchors, [])
  | item :: rest => do
    let l ← link? anchors item
    let (items, anchors, named) ← linkItems? l.anchors rest
    return (l.node :: items, anchors, l.named ++ named)

/-- The same for the pairs of a mapping. -/
def linkPairs? (anchors : Anchors) : List (Node (List Char) × Node (List Char)) →
    Option (List (Node Nat × Node Nat) × Anchors × List (Nat × Node Nat))
  | [] => some ([], anchors, [])
  | (key, value) :: rest => do
    let k ← link? anchors key
    let v ← link? k.anchors value
    let (pairs, anchors, named) ← linkPairs? v.anchors rest
    return ((k.node, v.node) :: pairs, anchors, k.named ++ v.named ++ named)

end

mutual

/-- The number of events that a node consists of: one for a scalar or an alias, two for the bounds
of a collection besides its content. -/
def size {ref : Type} : Node ref → Nat
  | .alias _ => 1
  | .scalar .. => 1
  | .sequence _ items => 2 + sizeItems items
  | .mapping _ pairs => 2 + sizePairs pairs

/-- The number of events of the items of a sequence. -/
def sizeItems {ref : Type} : List (Node ref) → Nat
  | [] => 0
  | item :: rest => item.size + sizeItems rest

/-- The number of events of the pairs of a mapping. -/
def sizePairs {ref : Type} : List (Node ref × Node ref) → Nat
  | [] => 0
  | (key, value) :: rest => key.size + value.size + sizePairs rest

end

end Node

end ManifestSync.Yaml
