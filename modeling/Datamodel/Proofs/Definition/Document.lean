import Datamodel.Proofs.Definition.Tree
import Datamodel.Proofs.Definition.WellFormed

/-!
# Reading the document of a definition

The first line of a document is a declaration, which makes no content, and all the rest is the root
node. So a document whose values are carried by its escaping is read as the tree of its definition.
The markup escaping carries every value. What is written verbatim has to be plain.
-/

namespace Datamodel

open Markup (Style Indent)

/-! ### The declaration -/

theorem Text.cutAt_of_not_mem {c : Char} {body : List Char} (h : c ∉ body) (mark rest : List Char) :
    cutAt (c :: mark) (body ++ (c :: mark ++ rest)) = some (body, rest) := by
  induction body with
  | nil =>
    have hmark : (c :: mark).isPrefixOf (c :: (mark ++ rest)) = true :=
      List.isPrefixOf_iff_prefix.2 (List.prefix_append (c :: mark) rest)
    rw [List.nil_append, List.cons_append, cutAt, if_pos hmark, ← List.cons_append, List.drop_left]
  | cons d body ih =>
    rw [List.mem_cons, not_or] at h
    have hmark : ¬(c :: mark).isPrefixOf (d :: (body ++ (c :: mark ++ rest))) = true := by
      simp [List.isPrefixOf, h.1]
    rw [List.cons_append, cutAt, if_neg hmark, ih h.2]
    rfl

namespace ClassDefinition

/-- What stands between the question marks of the first line. -/
def declarationBody : List Char :=
  ['x', 'm', 'l', ' ', 'v', 'e', 'r', 's', 'i', 'o', 'n', '=', '"', '1', '.', '0', '"', ' ', 'e',
    'n', 'c', 'o', 'd', 'i', 'n', 'g', '=', '"', 'U', 'T', 'F', '-', '8', '"']

theorem declaration_eq : declaration = '<' :: '?' :: (declarationBody ++ ['?', '>']) :=
  rfl

theorem markup_declaration (rest : List Char) :
    Xml.markup ('?' :: (declarationBody ++ (['?', '>'] ++ rest))) =
      .ok (.instruction declarationBody, rest) := by
  have hcut : Text.cutAt "?>".toList (declarationBody ++ (['?', '>'] ++ rest)) =
      some (declarationBody, rest) :=
    Text.cutAt_of_not_mem (by decide) ['>'] rest
  rw [Xml.markup, hcut]
  intro s hs
  cases hs

theorem stream_documentChars (style : Style) (definition : ClassDefinition) :
    Xml.stream (definition.documentChars style) =
      (Xml.streamFrom [] (definition.rootNode.render style 0)).prepend [.aside] := by
  have htext : definition.documentChars style =
      '<' :: '?' :: (declarationBody ++
        (['?', '>'] ++ (['\n'] ++ definition.rootNode.render style 0))) := by
    rw [documentChars, Style.line, Indent.margin_zero, declaration_eq]
    simp only [List.nil_append, List.cons_append, List.append_assoc]
  rw [htext, Xml.stream_cons_of_ne (by decide),
    Xml.streamFrom_markup (List.dropWhile_cons_of_neg (by decide)) (markup_declaration _)
      fun place => rfl, Xml.streamFrom_blanks fun c hc => by rw [List.mem_singleton.1 hc]; rfl]

/-! ### The tree read -/

/-- A document whose values are carried is read as the tree of its definition. -/
theorem parse_documentChars {style : Style} {definition : ClassDefinition}
    (h : definition.rootNode.Carried style.escaping) :
    Xml.parse (definition.documentChars style) = .ok definition.tree := by
  rw [← toElement_rootNode]
  exact Markup.Node.parse_eq_toElement (rootNode_wellFormed definition) h (by simp)
    (stream_documentChars style definition)

theorem toList_document (style : Style) (definition : ClassDefinition) :
    (definition.document style).toList = definition.documentChars style :=
  String.toList_ofList

/-- The escaped document is read as the tree of its definition, whatever the definition. -/
theorem parse_escaped (definition : ClassDefinition) (indent : Indent) :
    Xml.parse (definition.document ⟨.markup, indent⟩).toList = .ok definition.tree := by
  rw [toList_document]
  exact parse_documentChars (Markup.Node.carried_markup definition.rootNode)

end ClassDefinition

end Datamodel
