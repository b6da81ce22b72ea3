import Datamodel.Proofs.Xml.Selection

/-!
# Where the character data of a document goes

The tokens of a text tell of each run of text and of each literal block in which elements it stands,
whether or not the text can be read: an element is given a number among its siblings when it begins,
and the numbers of the open elements are kept. In a text that is read these numbers are the address
of an element, and the text of that element is what the runs and blocks with its address say. Only a
literal block can stand in no element, and then no element has it.
-/

namespace Datamodel.Xml

/-- A run of text or a literal block. -/
inductive CharacterData where
  | text (raw : List Char)
  | literal (content : List Char)
  deriving DecidableEq, Repr

/-- What character data says, where its references can be resolved. -/
def CharacterData.said : CharacterData → List Char
  | .text raw => textOf raw
  | .literal content => content

/-- Character data, and the numbers of the elements that it stands in, the outermost first. -/
structure Chunk where
  around : List Nat
  data : CharacterData
  deriving DecidableEq, Repr

/-- The character data among tokens, inside the elements with the numbers `opened`, the innermost
first; `next` is the number of the next element there. -/
def chunksFrom : (opened : List Nat) → (next : Nat) → List Token → List Chunk
  | _, _, [] => []
  | opened, next, .open _ :: tokens => chunksFrom (next :: opened) 0 tokens
  | number :: opened, _, .close :: tokens => chunksFrom opened (number + 1) tokens
  | [], next, .close :: tokens => chunksFrom [] next tokens
  | opened, next, .empty _ :: tokens => chunksFrom opened (next + 1) tokens
  | opened, next, .text raw :: tokens =>
    ⟨opened.reverse, .text raw⟩ :: chunksFrom opened next tokens
  | opened, next, .literal content :: tokens =>
    ⟨opened.reverse, .literal content⟩ :: chunksFrom opened next tokens
  | opened, next, .aside :: tokens => chunksFrom opened next tokens

/-- The character data of a text, in order. -/
def chunks (source : List Char) : List Chunk :=
  chunksFrom [] 0 (stream source).tokens

/-- What the character data directly in one element says. -/
def saidAt (chunks : List Chunk) (around : List Nat) : List Char :=
  (chunks.filter (·.around = around)).flatMap (·.data.said)

theorem saidAt_append (front back : List Chunk) (around : List Nat) :
    saidAt (front ++ back) around = saidAt front around ++ saidAt back around := by
  rw [saidAt, List.filter_append, List.flatMap_append]
  rfl

theorem saidAt_eq_nil {chunks : List Chunk} {around : List Nat}
    (h : ∀ chunk ∈ chunks, chunk.around ≠ around) : saidAt chunks around = [] := by
  rw [saidAt, List.filter_eq_nil_iff.2 (by simpa using h), List.flatMap_nil]

/-! ### The character data of pieces -/

namespace Piece

mutual

/-- The character data of a piece inside the elements `around`; an element has the number
`number`. -/
def chunksIn (around : List Nat) (number : Nat) : Piece → List Chunk
  | .element _ content => allChunksIn (around ++ [number]) 0 content
  | .empty _ | .aside => []
  | .text raw => [⟨around, .text raw⟩]
  | .literal content => [⟨around, .literal content⟩]

/-- The character data of pieces one after the other, the elements numbered from `next` on. -/
def allChunksIn (around : List Nat) (next : Nat) : List Piece → List Chunk
  | [] => []
  | piece :: pieces =>
    chunksIn around next piece ++ allChunksIn around (next + piece.tree?.toList.length) pieces

end

mutual

theorem chunksFrom_tokens (opened : List Nat) (next : Nat) (piece : Piece) (rest : List Token) :
    chunksFrom opened next (piece.tokens ++ rest) =
      piece.chunksIn opened.reverse next ++ chunksFrom opened (next + piece.tree?.toList.length)
        rest := by
  cases piece with
  | element tag content =>
    rw [tokens, List.cons_append, List.append_assoc, chunksFrom, chunksFrom_allTokens,
      List.singleton_append, chunksFrom, List.reverse_cons]
    rfl
  | empty | text | literal | aside => rfl

theorem chunksFrom_allTokens (opened : List Nat) (next : Nat) (pieces : List Piece)
    (rest : List Token) :
    chunksFrom opened next (allTokens pieces ++ rest) =
      allChunksIn opened.reverse next pieces ++ chunksFrom opened (next + (trees pieces).length)
        rest := by
  cases pieces with
  | nil => rfl
  | cons piece pieces =>
    rw [allTokens, List.append_assoc, chunksFrom_tokens, chunksFrom_allTokens, allChunksIn, trees,
      List.length_append, List.append_assoc, Nat.add_assoc]

end

theorem allChunksIn_append (around : List Nat) (next : Nat) (front back : List Piece) :
    allChunksIn around next (front ++ back) =
      allChunksIn around next front ++ allChunksIn around (next + (trees front).length) back := by
  induction front generalizing next with
  | nil => rfl
  | cons piece front ih =>
    rw [List.cons_append, allChunksIn, allChunksIn, trees, ih, List.length_append,
      List.append_assoc, Nat.add_assoc]

/-! ### Its addresses -/

mutual

/-- Character data of an element stands in it or in one below it. -/
theorem reaches_of_mem_chunksIn {piece : Piece} {tree : Tree} (htree : piece.tree? = some tree)
    {around : List Nat} {number : Nat} {chunk : Chunk} (h : chunk ∈ piece.chunksIn around number) :
    ∃ address path node, chunk.around = around ++ number :: address ∧
      tree.Reaches address path node := by
  cases piece with
  | element tag content =>
    obtain rfl := Option.some.inj htree
    obtain hhere | ⟨i, child, address, path, node, hchild, haround, hnode⟩ :=
      around_of_mem_allChunksIn h
    · exact ⟨[], [], _, hhere, .here _⟩
    · refine ⟨i :: address, child.name :: path, node, ?_, .child hchild hnode⟩
      rw [haround, List.append_assoc, Nat.zero_add]
      rfl
  | empty => contradiction
  | text | literal | aside => contradiction

theorem around_of_mem_allChunksIn {pieces : List Piece} {around : List Nat} {next : Nat}
    {chunk : Chunk} (h : chunk ∈ allChunksIn around next pieces) :
    chunk.around = around ∨ ∃ i child address path node, (trees pieces)[i]? = some child ∧
      chunk.around = around ++ (next + i) :: address ∧ child.Reaches address path node := by
  cases pieces with
  | nil => contradiction
  | cons piece pieces =>
    rw [allChunksIn, List.mem_append] at h
    rw [trees]
    obtain hfirst | hrest := h
    · cases htree : piece.tree? with
      | some tree =>
        obtain ⟨address, path, node, haround, hnode⟩ := reaches_of_mem_chunksIn htree hfirst
        exact .inr ⟨0, tree, address, path, node, rfl, haround, hnode⟩
      | none =>
        refine .inl ?_
        cases piece with
        | element | empty => contradiction
        | text | literal => rw [List.mem_singleton.1 hfirst]
        | aside => contradiction
    · obtain hhere | ⟨i, child, address, path, node, hchild, haround, hnode⟩ :=
        around_of_mem_allChunksIn hrest
      · exact .inl hhere
      · refine .inr ⟨piece.tree?.toList.length + i, child, address, path, node, ?_, ?_, hnode⟩
        · rwa [List.getElem?_append_right (Nat.le_add_right _ i), Nat.add_sub_cancel_left]
        · rwa [← Nat.add_assoc]

end

/-- Character data of pieces is not in an element with a number that none of them has. -/
theorem saidAt_of_number {pieces : List Piece} {around : List Nat} {next number : Nat}
    (h : number < next ∨ next + (trees pieces).length ≤ number) (address : List Nat) :
    saidAt (allChunksIn around next pieces) (around ++ number :: address) = [] := by
  refine saidAt_eq_nil fun chunk hchunk heq => ?_
  obtain hhere | ⟨i, child, inner, path, node, hchild, haround, -⟩ :=
    around_of_mem_allChunksIn hchunk
  · rw [hhere] at heq
    simp at heq
  · rw [haround, List.append_right_inj] at heq
    have hnumber : next + i = number := (List.cons.inj heq).1
    obtain ⟨hi, -⟩ := List.getElem?_eq_some_iff.1 hchild
    omega

theorem saidAt_around (around : List Nat) (next : Nat) (pieces : List Piece) :
    saidAt (allChunksIn around next pieces) around = pieces.flatMap ownText := by
  induction pieces generalizing next with
  | nil => rfl
  | cons piece pieces ih =>
    have hfirst : saidAt (piece.chunksIn around next) around = piece.ownText := by
      cases piece with
      | element tag content =>
        refine saidAt_eq_nil fun chunk hchunk heq => ?_
        obtain ⟨address, path, node, haround, -⟩ := reaches_of_mem_chunksIn rfl hchunk
        rw [haround] at heq
        simp at heq
      | text | literal => simp [chunksIn, saidAt, ownText, CharacterData.said]
      | empty | aside => rfl
    rw [allChunksIn, saidAt_append, ih, hfirst, List.flatMap_cons]

/-- The piece of a tree among those of some pieces. -/
theorem exists_piece {pieces : List Piece} {i : Nat} {tree : Tree}
    (h : (trees pieces)[i]? = some tree) :
    ∃ before piece after, pieces = before ++ piece :: after ∧ piece.tree? = some tree ∧
      (trees before).length = i := by
  induction pieces generalizing i with
  | nil => contradiction
  | cons piece pieces ih =>
    rw [trees] at h
    cases htree : piece.tree? with
    | none =>
      rw [htree] at h
      obtain ⟨before, found, after, rfl, hfound, hlength⟩ := ih h
      exact ⟨piece :: before, found, after, rfl, hfound, by rwa [trees, htree]⟩
    | some first =>
      rw [htree] at h
      cases i with
      | zero =>
        obtain rfl := Option.some.inj h
        exact ⟨[], piece, pieces, rfl, htree, rfl⟩
      | succ i =>
        obtain ⟨before, found, after, rfl, hfound, hlength⟩ := ih h
        refine ⟨piece :: before, found, after, rfl, hfound, ?_⟩
        rw [trees, htree, ← hlength, Option.toList_some, List.singleton_append, List.length_cons]

/-- Only one of some pieces holds what is said in an element among them. -/
theorem saidAt_of_piece {piece : Piece} {tree : Tree} (htree : piece.tree? = some tree)
    (around : List Nat) (before after : List Piece) (address : List Nat) :
    saidAt (allChunksIn around 0 (before ++ piece :: after))
      (around ++ (trees before).length :: address) =
      saidAt (piece.chunksIn around (trees before).length)
        (around ++ (trees before).length :: address) := by
  have hbefore : saidAt (allChunksIn around 0 before)
      (around ++ (trees before).length :: address) = [] :=
    saidAt_of_number (.inr (Nat.zero_add _).le) address
  have hafter : saidAt (allChunksIn around ((trees before).length + 1) after)
      (around ++ (trees before).length :: address) = [] :=
        saidAt_of_number (.inl (Nat.lt_succ_self _)) address
  rw [allChunksIn_append, Nat.zero_add, allChunksIn, htree, saidAt_append, saidAt_append, hbefore,
    List.nil_append]
  exact (congrArg _ hafter).trans (List.append_nil _)

/-- What is said at the address of an element is its text. -/
theorem saidAt_of_reaches {tree node : Tree} {address : List Nat} {path : List String}
    (h : tree.Reaches address path node) {piece : Piece} (htree : piece.tree? = some tree)
    (around : List Nat) (number : Nat) :
    String.ofList (saidAt (piece.chunksIn around number) (around ++ number :: address)) =
      node.toElement.text := by
  induction h generalizing piece around number with
  | here tree =>
    cases piece with
    | element tag content =>
      obtain rfl := Option.some.inj htree
      rw [chunksIn, saidAt_around]
      rfl
    | empty tag =>
      obtain rfl := Option.some.inj htree
      rfl
    | text | literal | aside => contradiction
  | @child tree child node i address path hchild hnode ih =>
    cases piece with
    | element tag content =>
      obtain rfl := Option.some.inj htree
      obtain ⟨before, found, after, rfl, hfound, rfl⟩ := exists_piece hchild
      rw [← ih hfound (around ++ [number]),
        ← saidAt_of_piece hfound (around ++ [number]) before after address,
        List.append_cons around number]
      rfl
    | empty tag =>
      obtain rfl := Option.some.inj htree
      contradiction
    | text | literal | aside => contradiction

/-- Beside the root there are literal blocks only. -/
theorem of_mem_outside {pieces : List Piece} (h : ∀ piece ∈ pieces, piece.IsOutside)
    {around : List Nat} {next : Nat} {chunk : Chunk}
    (hchunk : chunk ∈ allChunksIn around next pieces) :
    chunk.around = around ∧ ∃ content, chunk.data = .literal content := by
  induction pieces generalizing next with
  | nil => contradiction
  | cons piece pieces ih =>
    rw [List.forall_mem_cons] at h
    obtain hfirst | hrest := List.mem_append.1 hchunk
    · have houtside := h.1
      cases piece with
      | literal content =>
        obtain rfl := List.mem_singleton.1 hfirst
        exact ⟨rfl, content, rfl⟩
      | aside => contradiction
      | element | empty | text => exact houtside.elim
    · exact ih h.2 hrest

end Piece

/-! ### The character data of a document -/

variable {source : List Char}

theorem chunks_of_tokens {pieces : List Piece}
    (h : (stream source).tokens = Piece.allTokens pieces) :
    chunks source = Piece.allChunksIn [] 0 pieces := by
  have hall := Piece.chunksFrom_allTokens [] 0 pieces []
  rwa [List.append_nil, ← h, chunksFrom, List.append_nil] at hall

/-- What becomes of the character data of a document. -/
structure Tree.Accounts (document : Tree) (found : List Chunk) : Prop where
  /-- It stands in an element, except for literal blocks beside the root. -/
  inside : ∀ chunk ∈ found,
    (∃ address path node, chunk.around = 0 :: address ∧ document.Reaches address path node) ∨
      chunk.around = [] ∧ ∃ content, chunk.data = .literal content
  /-- The text of an element is what stands directly in it, in order. -/
  texts : ∀ address path node, document.Reaches address path node →
    node.toElement.text = String.ofList (saidAt found (0 :: address))

theorem Denotes.accounts {document : Tree} (h : Denotes source document) :
    document.Accounts (chunks source) := by
  obtain ⟨piece, houtlines, htree⟩ := h
  obtain ⟨before, after, houtside, htokens⟩ := houtlines.alone
  rw [List.forall_mem_append] at houtside
  have hnone := Piece.trees_outside houtside.1
  rw [chunks_of_tokens htokens]
  constructor
  case inside =>
    intro chunk hchunk
    rw [Piece.allChunksIn_append, hnone, Piece.allChunksIn, List.mem_append,
      List.mem_append] at hchunk
    obtain hbefore | hroot | hafter := hchunk
    · exact .inr (Piece.of_mem_outside houtside.1 hbefore)
    · exact .inl (Piece.reaches_of_mem_chunksIn htree hroot)
    · exact .inr (Piece.of_mem_outside houtside.2 hafter)
  case texts =>
    intro address path node hnode
    have hroot := Piece.saidAt_of_piece htree [] before after address
    rw [hnone] at hroot
    rw [← Piece.saidAt_of_reaches hnode htree [] 0]
    exact congrArg String.ofList hroot.symm

/-- In a text that is read, the text of every element is what the character data directly in it
says, and no other character data is left than literal blocks beside the root. A text with a run of
text beside the root is refused. -/
theorem character_data (source : List Char) :
    (∀ root, parse source = .ok root →
      ∃ document, Denotes source document ∧ document.toElement = root ∧
        document.Accounts (chunks source)) ∧
    ∀ raw, ⟨[], .text raw⟩ ∈ chunks source → ∃ error, parse source = .error error := by
  have hread : ∀ root, parse source = .ok root →
      ∃ document, Denotes source document ∧ document.toElement = root ∧
        document.Accounts (chunks source) := by
    intro root hparse
    obtain ⟨document, hdenotes, hroot⟩ := outlines_of_parse hparse
    exact ⟨document, hdenotes, hroot, hdenotes.accounts⟩
  refine ⟨hread, fun raw hraw => ?_⟩
  cases hparse : parse source with
  | error error => exact ⟨error, rfl⟩
  | ok root =>
    obtain ⟨document, -, -, haccounts⟩ := hread root hparse
    obtain ⟨address, path, node, haround, -⟩ | ⟨-, content, hcontent⟩ := haccounts.inside _ hraw
    · contradiction
    · contradiction

/-- A text with a run and a block around an element, and with a block behind the root. -/
def layered : List Char :=
  "<a>1 <b/><![CDATA[ 2]]></a><![CDATA[3]]>".toList

/-- A text with a run in front of the root. -/
def preceded : List Char :=
  "0<a/>".toList

theorem character_data_layered :
    (∃ root, parse layered = .ok root ∧ root.text = String.ofList (saidAt (chunks layered) [0]) ∧
      saidAt (chunks layered) [0] = "1 2".toList) ∧
    ∃ error, parse preceded = .error error := by
  obtain ⟨root, hroot⟩ : ∃ root, parse layered = .ok root := ⟨_, by cbv⟩
  obtain ⟨document, -, rfl, haccounts⟩ := (character_data layered).1 root hroot
  have hstray : chunks preceded = [⟨[], .text ['0']⟩] := by cbv
  exact ⟨⟨_, hroot, haccounts.texts [] [] document (.here document), by cbv⟩,
    (character_data preceded).2 _ (hstray ▸ List.mem_cons_self)⟩

/-- A text whose only character data is a literal block behind the root. -/
def followed : List Char :=
  "<a/><![CDATA[x]]>".toList

/-- The block is in no element, and still the text is read. -/
theorem parse_followed :
    ∃ root, parse followed = .ok root ∧ chunks followed = [⟨[], .literal ['x']⟩] ∧
      root.text = "" ∧ root.children.isEmpty = true :=
  ⟨_, by cbv, by cbv, by cbv, by cbv⟩

end Datamodel.Xml
