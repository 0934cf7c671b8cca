import Quill.Proofs.Report.Documents

/-!
# Outlines are told apart

Different programs have different outlines, whatever characters are shown as they are
(`Command.outlines_faithful`).

The words of an outline are names and quoted texts, and the bracket that closes a group tells
whether it is a node with named parts, a node with one part, or a list (`legible_vocabulary`). So
the text of an outline determines its layout. In the layout the name of a node tells the
alternative, and its parts tell the rest.
-/

set_option autoImplicit false

namespace Quill

open Report (Layout Vocabulary Plain Ended IsPrefixCode outlineEscape quoted)

namespace Report.Outline

/-! ## Words -/

/-- A name as outlines have them: letters and underscores, and at least one of these. -/
def isIdentifier (name : String) : Bool :=
  !name.toList.isEmpty && name.toList.all fun c => c.isAlpha || c == '_'

/-- Every character of a name is a letter or an underscore. -/
theorem mem_of_isIdentifier {name : String} (h : isIdentifier name = true) :
    ∀ c ∈ name.toList, (c.isAlpha || c == '_') = true := by
  rw [isIdentifier, Bool.and_eq_true] at h
  exact List.all_eq_true.mp h.2

/-- A name has no character that is no letter. -/
theorem not_mem_of_isIdentifier {name : String} (h : isIdentifier name = true) {c : Char}
    (hc : (c.isAlpha || c == '_') = false) : c ∉ name.toList := by
  intro hmem
  rw [mem_of_isIdentifier h c hmem] at hc
  exact Bool.noConfusion hc

/-- A name has a first character. -/
theorem exists_cons_of_isIdentifier {name : String} (h : isIdentifier name = true) :
    ∃ c cs, name.toList = c :: cs := by
  apply List.exists_cons_of_ne_nil
  intro hnil
  simp [isIdentifier, hnil] at h

/-- A name starts a line without space. -/
theorem plain_append_of_isIdentifier {name rest : String} (h : isIdentifier name = true)
    (hrest : '\n' ∉ rest.toList) : Plain (name ++ rest) := by
  refine ⟨?_, ?_⟩
  · rw [String.toList_append, List.mem_append, not_or]
    exact ⟨not_mem_of_isIdentifier h (by decide), hrest⟩
  · obtain ⟨c, cs, hname⟩ := exists_cons_of_isIdentifier h
    rw [String.toList_append, hname, List.cons_append, List.head?_cons]
    intro hspace
    obtain rfl := Option.some.inj hspace
    exact not_mem_of_isIdentifier h (by decide) (hname ▸ List.mem_cons_self)

/-- The group is a node with named parts. -/
def OpensNode (opening : String) : Prop :=
  opening.toList.getLast? = some '\x7b'
deriving Decidable

/-- The words of outlines: names and quoted texts, names with an opening bracket, and the names of
parts. -/
def vocabulary (plain : Char → Bool) : Vocabulary where
  IsWord word := isIdentifier word = true ∨ ∃ text, word = quoted (outlineEscape plain) text
  IsGroup opening closing :=
    (∃ name, isIdentifier name = true ∧ opening = name ++ " \x7b" ∧ closing = "\x7d") ∨
    (∃ name, isIdentifier name = true ∧ opening = name ++ "(" ∧ closing = ")") ∨
    opening = "[" ∧ closing = "]"
  IsLabel opening label :=
    if OpensNode opening then ∃ field, isIdentifier field = true ∧ label = field ++ ": "
    else label = ""

section

variable {plain : Char → Bool}

/-- A word ends in a letter or in a quote. -/
theorem last_of_isWord {word : String} (h : (vocabulary plain).IsWord word) :
    ∃ c, word.toList.getLast? = some c ∧ c ∉ ['\x7d', ')', ']', ','] := by
  rcases h with h | ⟨text, rfl⟩
  · have hne : word.toList ≠ [] := by
      obtain ⟨c, cs, hname⟩ := exists_cons_of_isIdentifier h
      simp [hname]
    refine ⟨_, List.getLast?_eq_some_getLast hne, fun hmem => ?_⟩
    have hnone : ∀ c ∈ ['\x7d', ')', ']', ','], (c.isAlpha || c == '_') = false := by
      simp only [List.forall_mem_cons]
      exact ⟨rfl, rfl, rfl, rfl, List.forall_mem_nil _⟩
    exact not_mem_of_isIdentifier h (hnone _ hmem) (List.getLast_mem hne)
  · refine ⟨'"', ?_, by decide⟩
    rw [toList_quoted, ← List.cons_append, List.getLast?_concat]

/-- A group of an outline is closed by a brace, a parenthesis or a bracket. -/
theorem closing_of_isGroup {opening closing : String}
    (h : (vocabulary plain).IsGroup opening closing) :
    closing = "\x7d" ∨ closing = ")" ∨ closing = "]" := by
  rcases h with ⟨-, -, -, h⟩ | ⟨-, -, -, h⟩ | ⟨-, h⟩
  · exact .inl h
  · exact .inr (.inl h)
  · exact .inr (.inr h)

/-- The words of outlines can be told apart. -/
theorem legible_vocabulary (plain : Char → Bool) : (vocabulary plain).Legible where
  word_plain := by
    rintro word (h | ⟨text, rfl⟩)
    · have hplain := @plain_append_of_isIdentifier word "" h (by decide)
      rwa [String.append_empty] at hplain
    · exact quoted_plain (isEscape_outlineEscape plain) text
  opening_plain := by
    rintro opening closing (⟨name, hname, rfl, -⟩ | ⟨name, hname, rfl, -⟩ | ⟨rfl, -⟩)
    · exact plain_append_of_isIdentifier hname (by decide)
    · exact plain_append_of_isIdentifier hname (by decide)
    · decide
  closing_plain h := by
    rcases closing_of_isGroup h with rfl | rfl | rfl <;> decide
  label_plain := by
    intro opening label h
    simp only [vocabulary] at h
    split at h
    · obtain ⟨field, hfield, rfl⟩ := h
      exact plain_append_of_isIdentifier hfield (by decide)
    · rw [h]
      decide
  word_ended h := by
    obtain ⟨c, hlast, hc⟩ := last_of_isWord h
    rw [Ended, hlast]
    rintro rfl
    simp at hc
  closing_ended h := by
    rcases closing_of_isGroup h with rfl | rfl | rfl <;> decide
  word_ne := by
    -- a word does not end in a bracket
    rintro word opening closing hword hgroup rfl
    obtain ⟨c, hlast, hc⟩ := last_of_isWord hword
    rcases closing_of_isGroup hgroup with rfl | rfl | rfl <;> simp at hlast <;> simp [← hlast] at hc
  group_inj := by
    intro opening closing opening' closing' h h' hsame
    have hlast := congrArg (fun word => word.toList.getLast?) hsame
    have hclosing : closing = closing' := by
      rcases closing_of_isGroup h with rfl | rfl | rfl <;>
        rcases closing_of_isGroup h' with rfl | rfl | rfl <;>
        first | rfl | simp at hlast
    rw [hclosing] at hsame
    exact ⟨String.append_left_inj _ |>.mp hsame, hclosing⟩
  label_code := by
    intro opening label label' h h' s t hst
    simp only [vocabulary] at h h'
    split at h
    · rename_i hnode
      rw [if_pos hnode] at h'
      obtain ⟨field, hfield, rfl⟩ := h
      obtain ⟨field', hfield', rfl⟩ := h'
      -- the colon ends the name of the part
      have hcolon : field.toList ++ ':' :: (' ' :: s) = field'.toList ++ ':' :: (' ' :: t) := by
        simpa using hst
      have hsame := eq_of_append_cons (not_mem_of_isIdentifier hfield (by decide))
        (not_mem_of_isIdentifier hfield' (by decide)) hcolon
      rw [String.toList_injective hsame]
    · rename_i hlist
      rw [if_neg hlist] at h'
      rw [h, h']

end

/-! ## Layouts -/

section

variable {plain : Char → Bool}

theorem membersUse_of_forall {opening : String} {members : List (String × Layout)}
    (h : ∀ member ∈ members, (vocabulary plain).IsLabel opening member.1 ∧
      member.2.Uses (vocabulary plain)) :
    Layout.MembersUse (vocabulary plain) opening members := by
  induction members with
  | nil => trivial
  | cons member members ih =>
    obtain ⟨hfirst, hothers⟩ := List.forall_mem_cons.mp h
    exact ⟨hfirst.1, hfirst.2, ih hothers⟩

theorem uses_word {word : String} (h : isIdentifier word = true) :
    (Layout.line word).Uses (vocabulary plain) :=
  .inl h

theorem uses_text (plain : Char → Bool) (value : String) :
    (text plain value).Uses (vocabulary plain) :=
  .inr ⟨value, rfl⟩

theorem uses_node {name : String} {parts : List (String × Layout)}
    (hname : isIdentifier name = true)
    (hparts : ∀ part ∈ parts, isIdentifier part.1 = true ∧ part.2.Uses (vocabulary plain)) :
    (node name parts).Uses (vocabulary plain) := by
  have hnode : OpensNode (name ++ " \x7b") := by simp [OpensNode]
  refine ⟨.inl ⟨name, hname, rfl, rfl⟩, membersUse_of_forall fun member hmember => ?_⟩
  obtain ⟨part, hpart, rfl⟩ := List.mem_map.mp hmember
  refine ⟨?_, (hparts part hpart).2⟩
  show if OpensNode (name ++ " \x7b") then _ else _
  rw [if_pos hnode]
  exact ⟨part.1, (hparts part hpart).1, rfl⟩

theorem uses_wrap {name : String} {part : Layout} (hname : isIdentifier name = true)
    (hpart : part.Uses (vocabulary plain)) : (wrap name part).Uses (vocabulary plain) := by
  have hwrap : ¬ OpensNode (name ++ "(") := by simp [OpensNode]
  refine ⟨.inr (.inl ⟨name, hname, rfl, rfl⟩), ?_, hpart, trivial⟩
  show if OpensNode (name ++ "(") then _ else _
  rw [if_neg hwrap]

theorem uses_list {parts : List Layout} (hparts : ∀ part ∈ parts, part.Uses (vocabulary plain)) :
    (list parts).Uses (vocabulary plain) := by
  refine ⟨.inr (.inr ⟨rfl, rfl⟩), membersUse_of_forall fun member hmember => ?_⟩
  obtain ⟨part, hpart, rfl⟩ := List.mem_map.mp hmember
  exact ⟨rfl, hparts part hpart⟩

theorem uses_list_map {α : Type} {outline : α → Layout}
    (h : ∀ value, (outline value).Uses (vocabulary plain)) (values : List α) :
    (list (values.map outline)).Uses (vocabulary plain) := by
  apply uses_list
  intro part hpart
  obtain ⟨value, -, rfl⟩ := List.mem_map.mp hpart
  exact h value

theorem uses_option {α : Type} {outline : α → Layout}
    (h : ∀ value, (outline value).Uses (vocabulary plain)) :
    ∀ value : Option α, (option outline value).Uses (vocabulary plain)
  | none => uses_word rfl
  | some value => uses_wrap rfl (h value)

end

@[simp] theorem text_inj (plain : Char → Bool) (a b : String) :
    text plain a = text plain b ↔ a = b := by
  refine ⟨fun h => ?_, congrArg _⟩
  have hquoted := congrArg (fun word => word.toList ++ []) (Layout.line.inj h)
  exact ((isEscape_outlineEscape plain).quoted_inj hquoted).1

/-- Nodes are equal just when their names and their parts are. -/
@[simp] theorem node_inj (name name' : String) (parts parts' : List (String × Layout)) :
    node name parts = node name' parts' ↔ name = name' ∧ parts = parts' := by
  have hparts : ∀ part part' : String × Layout,
      (part.1 ++ ": ", part.2) = (part'.1 ++ ": ", part'.2) → part = part' := by
    rintro ⟨field, part⟩ ⟨field', part'⟩ h
    simpa using h
  simp [node, List.map_inj_right hparts]

@[simp] theorem list_inj (parts parts' : List Layout) :
    list parts = list parts' ↔ parts = parts' := by
  simp [list, Layout.list, List.map_inj_right]

/-- Wrapped parts are equal just when their names and the parts are. -/
@[simp] theorem wrap_inj (name name' : String) (part part' : Layout) :
    wrap name part = wrap name' part' ↔ name = name' ∧ part = part' := by
  simp [wrap, Layout.list]

/-- A node has braces and a wrapped part has parentheses. -/
@[simp] theorem node_ne_wrap (name name' : String) (parts : List (String × Layout))
    (part : Layout) : node name parts ≠ wrap name' part := by
  simp [node, wrap, Layout.list]

@[simp] theorem wrap_ne_node (name name' : String) (part : Layout)
    (parts : List (String × Layout)) : wrap name part ≠ node name' parts :=
  (node_ne_wrap name' name parts part).symm

@[simp] theorem wrap_ne_line (name word : String) (part : Layout) : wrap name part ≠ .line word :=
  Layout.noConfusion

@[simp] theorem line_ne_wrap (name word : String) (part : Layout) : .line word ≠ wrap name part :=
  Layout.noConfusion

/-- Outlines of what may be missing are equal just when both are missing or both are there and
equal. -/
theorem option_inj {α : Type} {outline : α → Layout}
    (h : ∀ a b, outline a = outline b ↔ a = b) {a b : Option α} :
    option outline a = option outline b ↔ a = b := by
  cases a <;> cases b <;> simp [option, h]

end Report.Outline

open Report.Outline

/-! ## Trees -/

namespace TypeExpr

mutual
/-- The outline of a type is made of the words of outlines. -/
theorem uses_outline (plain : Char → Bool) :
    ∀ type : TypeExpr, (outline plain type).Uses (vocabulary plain)
  | .named name => uses_wrap rfl (uses_text plain name)
  | .array element => uses_wrap rfl (uses_outline plain element)
  | .func params result =>
    uses_node rfl
      (by simp [isIdentifier, uses_list (uses_outlineList plain params), uses_outline plain result])

theorem uses_outlineList (plain : Char → Bool) :
    ∀ types : List TypeExpr, ∀ part ∈ outlineList plain types, part.Uses (vocabulary plain)
  | [] => List.forall_mem_nil _
  | type :: types =>
    List.forall_mem_cons.mpr ⟨uses_outline plain type, uses_outlineList plain types⟩
end

mutual
/-- Types with the same outline are equal. -/
@[simp] theorem outline_inj (plain : Char → Bool) :
    ∀ a b : TypeExpr, outline plain a = outline plain b ↔ a = b
  | .named name, b => by cases b <;> simp [outline]
  | .array element, b => by cases b <;> simp [outline, outline_inj plain element]
  | .func params result, b => by
    cases b <;> simp [outline, outlineList_inj plain params, outline_inj plain result]

@[simp] theorem outlineList_inj (plain : Char → Bool) :
    ∀ as bs : List TypeExpr, outlineList plain as = outlineList plain bs ↔ as = bs
  | [], bs => by cases bs <;> simp [outlineList]
  | a :: as, bs => by
    cases bs <;> simp [outlineList, outline_inj plain a, outlineList_inj plain as]
end

end TypeExpr

namespace Expr

mutual
/-- The outline of an expression is made of the words of outlines. -/
theorem uses_outline (plain : Char → Bool) :
    ∀ expr : Expr, (outline plain expr).Uses (vocabulary plain)
  | .assign target value =>
    uses_node rfl (by simp [isIdentifier, uses_outline plain target, uses_outline plain value])
  | .binary op lhs rhs => by
    have hop : isIdentifier op.name = true := by cases op <;> rfl
    exact uses_node rfl
      (by simp [isIdentifier, uses_word hop, uses_outline plain lhs, uses_outline plain rhs])
  | .unary op operand => by
    have hop : isIdentifier op.name = true := by cases op <;> rfl
    exact uses_node rfl (by simp [isIdentifier, uses_word hop, uses_outline plain operand])
  | .call callee args =>
    uses_node rfl
      (by simp [isIdentifier, uses_text, uses_list (uses_outlineList plain args)])
  | .index array position =>
    uses_node rfl (by simp [isIdentifier, uses_outline plain array, uses_outline plain position])
  | .member object name =>
    uses_node rfl (by simp [isIdentifier, uses_outline plain object, uses_text])
  | .number text => uses_wrap rfl (uses_text plain text)
  | .string text => uses_wrap rfl (uses_text plain text)
  | .bool true => uses_wrap rfl (uses_word rfl)
  | .bool false => uses_wrap rfl (uses_word rfl)
  | .var name => uses_wrap rfl (uses_text plain name)
  | .paren inner => uses_wrap rfl (uses_outline plain inner)

theorem uses_outlineList (plain : Char → Bool) :
    ∀ exprs : List Expr, ∀ part ∈ outlineList plain exprs, part.Uses (vocabulary plain)
  | [] => List.forall_mem_nil _
  | expr :: exprs =>
    List.forall_mem_cons.mpr ⟨uses_outline plain expr, uses_outlineList plain exprs⟩
end

mutual
/-- Expressions with the same outline are equal. Some nodes have only a text, and their names tell
them apart. -/
@[simp] theorem outline_inj (plain : Char → Bool) :
    ∀ a b : Expr, outline plain a = outline plain b ↔ a = b
  | .assign target value, b => by
    cases b <;> simp [outline, outline_inj plain target, outline_inj plain value]
  | .binary op lhs rhs, b => by
    cases b <;> simp [outline, outline_inj plain lhs, outline_inj plain rhs]
  | .unary op operand, b => by cases b <;> simp [outline, outline_inj plain operand]
  | .call callee args, b => by cases b <;> simp [outline, outlineList_inj plain args]
  | .index array position, b => by
    cases b <;> simp [outline, outline_inj plain array, outline_inj plain position]
  | .member object name, b => by cases b <;> simp [outline, outline_inj plain object]
  | .number text, b => by cases b <;> simp [outline]
  | .string text, b => by cases b <;> simp [outline]
  | .bool value, b => by
    cases b with
    | bool value' => cases value <;> cases value' <;> simp [outline]
    | _ => simp [outline]
  | .var name, b => by cases b <;> simp [outline]
  | .paren inner, b => by cases b <;> simp [outline, outline_inj plain inner]

@[simp] theorem outlineList_inj (plain : Char → Bool) :
    ∀ as bs : List Expr, outlineList plain as = outlineList plain bs ↔ as = bs
  | [], bs => by cases bs <;> simp [outlineList]
  | a :: as, bs => by
    cases bs <;> simp [outlineList, outline_inj plain a, outlineList_inj plain as]
end

end Expr

theorem LetDecl.uses_outline (plain : Char → Bool) (decl : LetDecl) :
    (decl.outline plain).Uses (vocabulary plain) :=
  uses_node rfl (by
    simp [isIdentifier, uses_text, TypeExpr.uses_outline, uses_option (Expr.uses_outline plain)])

/-- Declarations of variables with the same outline are equal. -/
@[simp] theorem LetDecl.outline_inj (plain : Char → Bool) (a b : LetDecl) :
    a.outline plain = b.outline plain ↔ a = b := by
  obtain ⟨name, type, value⟩ := a
  obtain ⟨name', type', value'⟩ := b
  simp [outline, option_inj (Expr.outline_inj plain)]

namespace Stmt

mutual
/-- The outline of a statement is made of the words of outlines. -/
theorem uses_outline (plain : Char → Bool) :
    ∀ stmt : Stmt, (outline plain stmt).Uses (vocabulary plain)
  | .letDecl decl => uses_wrap rfl (decl.uses_outline plain)
  | .expr value => uses_wrap rfl (value.uses_outline plain)
  | .ifThen condition body =>
    uses_node rfl (by
      simp [isIdentifier, condition.uses_outline plain, uses_outline plain body,
        uses_word (show isIdentifier "None" = true from rfl)])
  | .ifElse condition body alternative =>
    uses_node rfl (by
      simp [isIdentifier, condition.uses_outline plain, uses_outline plain body,
        uses_wrap (show isIdentifier "Some" = true from rfl) (uses_outline plain alternative)])
  | .whileDo condition body =>
    uses_node rfl (by simp [isIdentifier, condition.uses_outline plain, uses_outline plain body])
  | .ret value => uses_wrap rfl (uses_option (Expr.uses_outline plain) value)
  | .block body =>
    uses_wrap rfl (uses_node rfl (by simp [isIdentifier, uses_list (uses_outlineList plain body)]))

theorem uses_outlineList (plain : Char → Bool) :
    ∀ stmts : List Stmt, ∀ part ∈ outlineList plain stmts, part.Uses (vocabulary plain)
  | [] => List.forall_mem_nil _
  | stmt :: stmts =>
    List.forall_mem_cons.mpr ⟨uses_outline plain stmt, uses_outlineList plain stmts⟩
end

mutual
/-- Statements with the same outline are equal. Conditionals have one name with and without an
alternative, and what is shown of the alternative tells whether there is one. -/
@[simp] theorem outline_inj (plain : Char → Bool) :
    ∀ a b : Stmt, outline plain a = outline plain b ↔ a = b
  | .letDecl decl, b => by cases b <;> simp [outline]
  | .expr value, b => by cases b <;> simp [outline]
  | .ifThen condition body, b => by cases b <;> simp [outline, outline_inj plain body]
  | .ifElse condition body alternative, b => by
    cases b <;> simp [outline, outline_inj plain body, outline_inj plain alternative]
  | .whileDo condition body, b => by cases b <;> simp [outline, outline_inj plain body]
  | .ret value, b => by cases b <;> simp [outline, option_inj (Expr.outline_inj plain)]
  | .block body, b => by cases b <;> simp [outline, outlineList_inj plain body]

@[simp] theorem outlineList_inj (plain : Char → Bool) :
    ∀ as bs : List Stmt, outlineList plain as = outlineList plain bs ↔ as = bs
  | [], bs => by cases bs <;> simp [outlineList]
  | a :: as, bs => by
    cases bs <;> simp [outlineList, outline_inj plain a, outlineList_inj plain as]
end

end Stmt

/-! ## Programs -/

theorem QualifiedName.uses_outline (plain : Char → Bool) (name : QualifiedName) :
    (name.outline plain).Uses (vocabulary plain) :=
  uses_node rfl (by simp [isIdentifier, uses_list_map (uses_text plain)])

@[simp] theorem QualifiedName.outline_inj (plain : Char → Bool) (a b : QualifiedName) :
    a.outline plain = b.outline plain ↔ a = b := by
  obtain ⟨segments⟩ := a
  obtain ⟨segments'⟩ := b
  simp [outline, List.map_inj_right]

theorem Binder.uses_outline {role : String} (hrole : isIdentifier role = true)
    (plain : Char → Bool) (binder : Binder) :
    (binder.outline role plain).Uses (vocabulary plain) :=
  uses_node hrole (by simp [isIdentifier, uses_text, TypeExpr.uses_outline])

@[simp] theorem Binder.outline_inj (role : String) (plain : Char → Bool) (a b : Binder) :
    a.outline role plain = b.outline role plain ↔ a = b := by
  obtain ⟨name, type⟩ := a
  obtain ⟨name', type'⟩ := b
  simp [outline]

theorem Import.uses_outline (plain : Char → Bool) (decl : Import) :
    (decl.outline plain).Uses (vocabulary plain) :=
  uses_node rfl (by
    simp [isIdentifier, QualifiedName.uses_outline, uses_option (uses_text plain)])

@[simp] theorem Import.outline_inj (plain : Char → Bool) (a b : Import) :
    a.outline plain = b.outline plain ↔ a = b := by
  obtain ⟨path, localName⟩ := a
  obtain ⟨path', localName'⟩ := b
  simp [outline, option_inj (text_inj plain)]

theorem Item.uses_outline (plain : Char → Bool) (item : Item) :
    (item.outline plain).Uses (vocabulary plain) := by
  cases item with
  | typeAlias name type =>
    exact uses_wrap rfl (uses_node rfl (by simp [isIdentifier, uses_text, type.uses_outline]))
  | struct name fields =>
    have hrole : isIdentifier "Field" = true := rfl
    have hfields := uses_list_map (Binder.uses_outline hrole plain) fields
    exact uses_wrap rfl (uses_node rfl (by simp [isIdentifier, uses_text, hfields]))
  | const name type value =>
    exact uses_wrap rfl (uses_node rfl (by
      simp [isIdentifier, uses_text, type.uses_outline, value.uses_outline]))
  | fn name params result body =>
    have hrole : isIdentifier "Param" = true := rfl
    have hparams := uses_list_map (Binder.uses_outline hrole plain) params
    have hresult := uses_option (TypeExpr.uses_outline plain) result
    have hbody : (node "Block" [("stmts", list (Stmt.outlineList plain body))]).Uses
        (vocabulary plain) :=
      uses_node rfl (by simp [isIdentifier, uses_list (Stmt.uses_outlineList plain body)])
    exact uses_wrap rfl (uses_node rfl (by
      simp [isIdentifier, uses_text, hparams, hresult, hbody]))
  | letDecl decl => exact uses_wrap rfl (decl.uses_outline plain)

/-- Declarations with the same outline are equal. -/
@[simp] theorem Item.outline_inj (plain : Char → Bool) (a b : Item) :
    a.outline plain = b.outline plain ↔ a = b := by
  cases a with
  | typeAlias name type => cases b <;> simp [outline]
  | struct name fields => cases b <;> simp [outline, List.map_inj_right]
  | const name type value => cases b <;> simp [outline]
  | fn name params result body =>
    cases b <;> simp [outline, List.map_inj_right, option_inj (TypeExpr.outline_inj plain)]
  | letDecl decl => cases b <;> simp [outline]

namespace Program

variable (plain : Char → Bool)

/-- The outline of a program is made of the words of outlines. -/
theorem uses_outline (program : Program) : (program.outline plain).Uses (vocabulary plain) := by
  have himports := uses_list_map (Import.uses_outline plain) program.imports
  have hitems := uses_list_map (Item.uses_outline plain) program.items
  have hmodule : (node "ModuleDecl" [("name", program.moduleName.outline plain)]).Uses
      (vocabulary plain) :=
    uses_node rfl (by simp [isIdentifier, program.moduleName.uses_outline])
  exact uses_node rfl (by simp [isIdentifier, hmodule, himports, hitems])

/-- Programs with the same outline are equal. -/
@[simp] theorem outline_inj (a b : Program) : a.outline plain = b.outline plain ↔ a = b := by
  obtain ⟨moduleName, imports, items⟩ := a
  obtain ⟨moduleName', imports', items'⟩ := b
  simp [outline, List.map_inj_right]

/-- The text of an outline determines the program. -/
theorem outlineText_injective : Function.Injective (outlineText plain) := by
  intro a b h
  have hlayout := Layout.text_inj (legible_vocabulary plain) (.inr rfl) (by decide)
    (a.uses_outline plain) (b.uses_outline plain) h
  exact (outline_inj plain a b).mp hlayout

end Program

/-! ## Reports -/

namespace Command

/-- A program can be read off its outline: whatever characters are shown as they are, different
programs have different outlines. So programs for which the same is reported are equal. -/
theorem outlines_faithful :
    (∀ plain : Char → Bool, Function.Injective (Program.outlineText plain)) ∧
    ∀ p q : Program, (reportProgram .pretty (.ok p)).out = (reportProgram .pretty (.ok q)).out →
      p = q := by
  refine ⟨Program.outlineText_injective, fun p q h => ?_⟩
  exact Program.outlineText_injective Text.isPrintable h

/-- Spaces and comments do not show in the outline of a program. A line feed in a name does, and so
does a backslash with the letter that stands for it. -/
theorem outlines_faithful_spaced :
    (parse .pretty "module m;").out = (parse .pretty "module  m //x//;").out ∧
    (∃ p q, Program.ofSource "module m;" = .ok p ∧
      Program.ofSource "module  m //x//;" = .ok q ∧ p = q) ∧
    Program.outlineText (fun _ => true) ⟨⟨["a\nb"]⟩, [], []⟩ ≠
      Program.outlineText (fun _ => true) ⟨⟨["a\\nb"]⟩, [], []⟩ := by
  have hp : Program.ofSource "module m;" = .ok ⟨⟨["m"]⟩, [], []⟩ := by decide +kernel
  have hq : Program.ofSource "module  m //x//;" = .ok ⟨⟨["m"]⟩, [], []⟩ := by decide +kernel
  refine ⟨by decide +kernel, ⟨_, _, hp, hq, ?_⟩, fun h => ?_⟩
  · exact outlines_faithful.2 _ _ (by decide +kernel)
  · exact absurd (outlines_faithful.1 _ h) (by decide)

end Command

end Quill
