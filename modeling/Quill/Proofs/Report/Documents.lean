import Quill.Command.Run
import Quill.Proofs.Report.Json

/-!
# The documents of trees and errors are told apart

Different trees, tokens and errors have different documents. An alternative is known by the name of
its one field, an absent part by `null`, which is no document of a part that is there, and the stage
of a failure tells the two shapes of errors apart.

With the texts of documents that makes the reports of the two commands faithful: what was read can
be read off what is written.
-/

set_option autoImplicit false

namespace Quill

open Report (Json)

/-! ## Optional parts -/

theorem Report.Json.ofOption_inj {α : Type} {encode : α → Json} (hnull : ∀ a, encode a ≠ .null)
    (hencode : ∀ a b, encode a = encode b ↔ a = b) {a b : Option α} :
    Json.ofOption encode a = Json.ofOption encode b ↔ a = b := by
  cases a with
  | none =>
    cases b with
    | none => exact ⟨fun _ => rfl, fun _ => rfl⟩
    | some b => simpa [Json.ofOption] using (hnull b).symm
  | some a =>
    cases b with
    | none => simpa [Json.ofOption] using hnull a
    | some b => rw [Json.ofOption, Json.ofOption, hencode, Option.some.injEq]

/-! ## Trees -/

@[simp] theorem BinaryOp.name_inj (a b : BinaryOp) : a.name = b.name ↔ a = b := by
  cases a <;> cases b <;> simp [name]

@[simp] theorem UnaryOp.name_inj (a b : UnaryOp) : a.name = b.name ↔ a = b := by
  cases a <;> cases b <;> simp [name]

namespace TypeExpr

@[simp] theorem json_ne_null (a : TypeExpr) : json a ≠ .null := by
  cases a <;> simp [json, Json.variant]

mutual
/-- Types with the same document are equal. -/
@[simp] theorem json_inj : ∀ a b : TypeExpr, json a = json b ↔ a = b
  | .named name, b => by cases b <;> simp [json, Json.variant]
  | .array element, b => by cases b <;> simp [json, Json.variant, json_inj element]
  | .func params result, b => by
    cases b <;> simp [json, Json.variant, jsonList_inj params, json_inj result]

@[simp] theorem jsonList_inj : ∀ as bs : List TypeExpr, jsonList as = jsonList bs ↔ as = bs
  | [], bs => by cases bs <;> simp [jsonList]
  | a :: as, bs => by cases bs <;> simp [jsonList, json_inj a, jsonList_inj as]
end

end TypeExpr

namespace Expr

@[simp] theorem json_ne_null (a : Expr) : json a ≠ .null := by
  cases a <;> simp [json, Json.variant]

mutual
/-- Expressions with the same document are equal. Some nodes have only a text, and their names tell
them apart. -/
@[simp] theorem json_inj : ∀ a b : Expr, json a = json b ↔ a = b
  | .assign target value, b => by
    cases b <;> simp [json, Json.variant, json_inj target, json_inj value]
  | .binary op lhs rhs, b => by
    cases b <;> simp [json, Json.variant, json_inj lhs, json_inj rhs]
  | .unary op operand, b => by cases b <;> simp [json, Json.variant, json_inj operand]
  | .call callee args, b => by cases b <;> simp [json, Json.variant, jsonList_inj args]
  | .index array position, b => by
    cases b <;> simp [json, Json.variant, json_inj array, json_inj position]
  | .member object name, b => by cases b <;> simp [json, Json.variant, json_inj object]
  | .number text, b => by cases b <;> simp [json, Json.variant]
  | .string text, b => by cases b <;> simp [json, Json.variant]
  | .bool value, b => by cases b <;> simp [json, Json.variant]
  | .var name, b => by cases b <;> simp [json, Json.variant]
  | .paren inner, b => by cases b <;> simp [json, Json.variant, json_inj inner]

@[simp] theorem jsonList_inj : ∀ as bs : List Expr, jsonList as = jsonList bs ↔ as = bs
  | [], bs => by cases bs <;> simp [jsonList]
  | a :: as, bs => by cases bs <;> simp [jsonList, json_inj a, jsonList_inj as]
end

end Expr

@[simp] theorem LetDecl.json_inj (a b : LetDecl) : a.json = b.json ↔ a = b := by
  obtain ⟨name, type, value⟩ := a
  obtain ⟨name', type', value'⟩ := b
  simp [json, Json.ofOption_inj Expr.json_ne_null Expr.json_inj]

namespace Stmt

@[simp] theorem json_ne_null (a : Stmt) : json a ≠ .null := by
  cases a <;> simp [json, Json.variant]

mutual
/-- Statements with the same document are equal. Conditionals have one name with and without an
alternative; the alternative is `null` only where there is none. -/
@[simp] theorem json_inj : ∀ a b : Stmt, json a = json b ↔ a = b
  | .letDecl decl, b => by cases b <;> simp [json, Json.variant]
  | .expr value, b => by cases b <;> simp [json, Json.variant]
  | .ifThen condition body, b => by
    cases b <;> simp [json, Json.variant, json_inj body, (json_ne_null _).symm]
  | .ifElse condition body alternative, b => by
    cases b <;> simp [json, Json.variant, json_inj body, json_inj alternative]
  | .whileDo condition body, b => by cases b <;> simp [json, Json.variant, json_inj body]
  | .ret value, b => by
    cases b <;> simp [json, Json.variant, Json.ofOption_inj Expr.json_ne_null Expr.json_inj]
  | .block body, b => by cases b <;> simp [json, Json.variant, jsonList_inj body]

@[simp] theorem jsonList_inj : ∀ as bs : List Stmt, jsonList as = jsonList bs ↔ as = bs
  | [], bs => by cases bs <;> simp [jsonList]
  | a :: as, bs => by cases bs <;> simp [jsonList, json_inj a, jsonList_inj as]
end

end Stmt

@[simp] theorem QualifiedName.json_inj (a b : QualifiedName) : a.json = b.json ↔ a = b := by
  obtain ⟨segments⟩ := a
  obtain ⟨segments'⟩ := b
  simp [json, List.map_inj_right]

@[simp] theorem Binder.json_inj (a b : Binder) : a.json = b.json ↔ a = b := by
  obtain ⟨name, type⟩ := a
  obtain ⟨name', type'⟩ := b
  simp [json]

@[simp] theorem Import.json_inj (a b : Import) : a.json = b.json ↔ a = b := by
  obtain ⟨path, localName⟩ := a
  obtain ⟨path', localName'⟩ := b
  simp [json, Json.ofOption_inj]

/-- Declarations with the same document are equal. -/
@[simp] theorem Item.json_inj (a b : Item) : a.json = b.json ↔ a = b := by
  cases a with
  | typeAlias name type => cases b <;> simp [json, Json.variant]
  | struct name fields => cases b <;> simp [json, Json.variant, List.map_inj_right]
  | const name type value => cases b <;> simp [json, Json.variant]
  | fn name params result body =>
    cases b <;> simp [json, Json.variant, List.map_inj_right,
      Json.ofOption_inj TypeExpr.json_ne_null TypeExpr.json_inj]
  | letDecl decl => cases b <;> simp [json, Json.variant]

/-- Programs with the same document are equal. -/
@[simp] theorem Program.json_inj (a b : Program) : a.json = b.json ↔ a = b := by
  obtain ⟨moduleName, imports, items⟩ := a
  obtain ⟨moduleName', imports', items'⟩ := b
  simp [json, List.map_inj_right]

/-! ## Tokens and errors -/

@[simp] theorem Kind.name_inj (a b : Kind) : a.name = b.name ↔ a = b := by
  refine ⟨fun h => ?_, congrArg name⟩
  have hfound := Kind.ofName?_name a
  rw [h, Kind.ofName?_name] at hfound
  exact (Option.some.inj hfound).symm

@[simp] theorem Token.json_inj (a b : Token) : a.json = b.json ↔ a = b := by
  obtain ⟨kind, text, ⟨line, column⟩⟩ := a
  obtain ⟨kind', text', ⟨line', column'⟩⟩ := b
  simp [json]

/-- The category of a fault and its wording determine the fault. -/
theorem Fault.eq_of_message {a b : Fault} (hname : a.name = b.name)
    (hmessage : a.message = b.message) : a = b := by
  -- faults of one category differ at most in what the wording quotes, between fixed parts
  cases a with
  | openComment => cases b <;> first | rfl | simp [name] at hname
  | openString => cases b <;> first | rfl | simp [name] at hname
  | bareExponent accepted =>
    cases b with
    | bareExponent accepted' =>
      have hquoted : "malformed number '" ++ accepted ++ "': exponent needs at least one digit" =
          "malformed number '" ++ accepted' ++ "': exponent needs at least one digit" := hmessage
      rw [String.append_left_inj, String.append_right_inj] at hquoted
      rw [hquoted]
    | _ => simp [name] at hname
  | loneOperator c =>
    cases b with
    | loneOperator d =>
      have hquoted : "unexpected character '" ++ c.toString ++ "' (did you mean '" ++ c.toString ++
          c.toString ++ "'?)" = "unexpected character '" ++ d.toString ++ "' (did you mean '" ++
          d.toString ++ d.toString ++ "'?)" := hmessage
      simp only [String.append_assoc, String.append_right_inj, Char.toString_eq_singleton,
        String.singleton_append_inj] at hquoted
      rw [hquoted.1]
    | _ => simp [name] at hname
  | strayChar c =>
    cases b with
    | strayChar d =>
      have hquoted : "unexpected character '" ++ c.toString ++ "'" =
          "unexpected character '" ++ d.toString ++ "'" := hmessage
      rw [String.append_left_inj, String.append_right_inj, Char.toString_eq_singleton,
        Char.toString_eq_singleton, String.singleton_inj] at hquoted
      rw [hquoted]
    | _ => simp [name] at hname

@[simp] theorem LexicalError.json_inj (a b : LexicalError) : a.json = b.json ↔ a = b := by
  refine ⟨fun h => ?_, congrArg json⟩
  obtain ⟨fault, ⟨line, column⟩, tokens⟩ := a
  obtain ⟨fault', ⟨line', column'⟩, tokens'⟩ := b
  simp only [json, Json.object.injEq, List.cons.injEq, Prod.mk.injEq, Json.string.injEq,
    Json.number.injEq, Json.array.injEq, true_and, and_true] at h
  obtain ⟨hname, hmessage, rfl, rfl, htokens⟩ := h
  obtain rfl := Fault.eq_of_message hname hmessage
  obtain rfl := (List.map_inj_right fun s t => (Token.json_inj s t).mp).mp htokens
  rfl

/-- The kind that is expected is named in capitals; no other wording goes on in capitals there. -/
theorem SyntaxError.expected_ne {kind : Kind} {found word : String}
    (h : word.toList[9]?.map Char.isUpper ≠ some true) :
    "expected " ++ kind.name ++ ", found " ++ found ≠ word := by
  rintro rfl
  -- nine characters come before the name of the kind
  have hcapital : ∃ c cs, kind.name.toList = c :: cs ∧ c.isUpper = true := by
    cases kind <;> exact ⟨_, _, rfl, rfl⟩
  obtain ⟨c, cs, hname, hc⟩ := hcapital
  simp [hname, hc] at h

/-- Only a message that names the expected kind has a capital letter after its first nine
characters. -/
theorem SyntaxError.not_isUpper {cause : SyntaxCause} (h : ∀ kind, cause ≠ .expected kind)
    (token : Token) : (message ⟨cause, token⟩).toList[9]?.map Char.isUpper ≠ some true := by
  cases cause with
  | expected kind => exact absurd rfl (h kind)
  | _ =>
    simp only [message]
    decide

/-- The wording of a syntax error and its token determine the cause. -/
theorem SyntaxError.eq_of_message {a b : SyntaxError} (hmessage : a.message = b.message)
    (htoken : a.token = b.token) : a = b := by
  obtain ⟨cause, token⟩ := a
  obtain ⟨cause', token'⟩ := b
  obtain rfl : token = token' := htoken
  cases cause with
  | expected kind =>
    cases cause' with
    | expected kind' =>
      simp only [message, String.append_left_inj, String.append_right_inj] at hmessage
      rw [(Kind.name_inj kind kind').mp hmessage]
    | _ => exact absurd hmessage (expected_ne (not_isUpper (by simp) token))
  | _ =>
    -- the other causes have a fixed wording each
    cases cause' with
    | expected kind' => exact absurd hmessage.symm (expected_ne (not_isUpper (by simp) token))
    | _ => first | rfl | simp [message] at hmessage

@[simp] theorem SyntaxError.json_inj (a b : SyntaxError) : a.json = b.json ↔ a = b := by
  refine ⟨fun h => ?_, congrArg json⟩
  simp only [json, Json.object.injEq, List.cons.injEq, Prod.mk.injEq, Json.string.injEq, true_and,
    and_true] at h
  obtain ⟨-, hmessage, htoken⟩ := h
  exact eq_of_message hmessage ((Token.json_inj _ _).mp htoken)

/-! ## Documents of the two commands -/

/-- Documents of token lists are equal just when the outcomes are. -/
theorem Report.tokensDocument_inj (a b : Except LexicalError (List Token)) :
    tokensDocument a = tokensDocument b ↔ a = b := by
  cases a <;> cases b <;> simp [tokensDocument, List.map_inj_right]

/-- Rejections of one stage with one document are equal. -/
theorem Rejection.json_inj {a b : Rejection} (hstage : a.stage = b.stage) (h : a.json = b.json) :
    a = b := by
  cases a with
  | lexical error =>
    cases b with
    | lexical error' => rw [(LexicalError.json_inj error error').mp h]
    | syntactic error' => simp [stage] at hstage
  | syntactic error =>
    cases b with
    | lexical error' => simp [stage] at hstage
    | syntactic error' => rw [(SyntaxError.json_inj error error').mp h]

/-- Documents of programs are equal just when the outcomes are. -/
theorem Report.programDocument_inj (a b : Except Rejection Program) :
    programDocument a = programDocument b ↔ a = b := by
  refine ⟨fun h => ?_, congrArg programDocument⟩
  cases a with
  | ok program =>
    cases b with
    | ok program' =>
      have hprogram : program = program' := by simpa [programDocument] using h
      rw [hprogram]
    | error why => simp [programDocument] at h
  | error why =>
    cases b with
    | ok program => simp [programDocument] at h
    | error why' =>
      simp only [programDocument, Json.object.injEq, List.cons.injEq, Prod.mk.injEq,
        Json.string.injEq, true_and, and_true] at h
      rw [Rejection.json_inj h.1 h.2]

/-! ## Reports -/

namespace Command

theorem out_reportTokens_json (outcome : Except LexicalError (List Token)) :
    (reportTokens .json outcome).out = (Report.tokensDocument outcome).text := by
  cases outcome <;> simp only [reportTokens]

theorem out_reportProgram_json (outcome : Except Rejection Program) :
    (reportProgram .json outcome).out = (Report.programDocument outcome).text := by
  cases outcome <;> simp only [reportProgram]

/-- What was read can be read off a JSON report: sources with the same report have the same outcome,
be it the tokens or the program, or the error with all that it says. Programs have the same text
only if they are equal, whether or not they are read from a source. -/
theorem json_reports_faithful :
    (∀ source source' : String, (parse .json source).out = (parse .json source').out →
      Program.ofSource source = Program.ofSource source') ∧
    (∀ source source' : String, (lex .json source).out = (lex .json source').out →
      Token.scan source = Token.scan source') ∧
    Function.Injective fun program : Program => program.json.text := by
  refine ⟨fun source source' h => ?_, fun source source' h => ?_, fun program program' h => ?_⟩
  · rw [parse, parse, out_reportProgram_json, out_reportProgram_json] at h
    exact (Report.programDocument_inj _ _).mp (Json.text_injective h)
  · rw [lex, lex, out_reportTokens_json, out_reportTokens_json] at h
    exact (Report.tokensDocument_inj _ _).mp (Json.text_injective h)
  · exact (Program.json_inj program program').mp (Json.text_injective h)

/-- Spaces and comments do not show in the report of a program. Whether a literal or a comment is
left open does. -/
theorem json_reports_faithful_spaced :
    (parse .json "module m;").out = (parse .json "module  m //x//;").out ∧
      Program.ofSource "module m;" = Program.ofSource "module  m //x//;" ∧
      (parse .json "\"").out ≠ (parse .json "//").out := by
  have hsame : (parse .json "module m;").out = (parse .json "module  m //x//;").out := by
    decide +kernel
  have hother : Program.ofSource "\"" ≠ Program.ofSource "//" := by decide +kernel
  exact ⟨hsame, json_reports_faithful.1 _ _ hsame,
    fun h => hother (json_reports_faithful.1 _ _ h)⟩

end Command

end Quill
