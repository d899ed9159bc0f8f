import Stencil.Proofs.Compile.Named
import Stencil.Proofs.Runs.Documents
import Stencil.Proofs.Sheets.Meaning

/-!
# Sheets — data under a name of its own

With a name for its data, a template reads a member of an object as the name, a point and the key.
The function of the template takes the name as its first parameter, and it binds some names itself:
the second parameter is the helper object, and the declaration that comes first gives the output and
the function that writes their values.  Any other name stands for the data, so that such a template
renders to the text of the member (`render_member`).  The name of the value written last is none of
the exceptions: it is declared without a value, which leaves the parameter as it is, and a template
that reads one member has read it when it is written over.
-/

namespace Stencil
open Script Script.Parser Template

/-! ### The template -/

theorem not_mem_of_isName {word : String} (h : isName word = true) {c : Char}
    (hc : isNamePart c = false) : c ∉ word.toList := by
  intro hm
  rw [isNamePart_of_isName h c hm] at hc
  cases hc

section
variable {p k : String} (hp : isName p = true) (hk : isName k = true)
include hp hk

theorem reads_memberOf : Reads (" " ++ p ++ "." ++ k ++ " ").toList
    [(.name p, false), (.sign .dot, false), (.name k, false)] [' '] := by
  simp only [String.toList_append, List.append_assoc]
  refine .cons rfl (.space (.name hp fun c hc => by cases hc; decide)) ?_
  exact .cons rfl (.sign .dot (endsSign_name hk _))
    (.cons rfl (.name hk fun c hc => by cases hc; decide) .nil)

theorem expresses_memberOf : Expresses (" " ++ p ++ "." ++ k ++ " ") (.member (.name p) k) := by
  obtain ⟨ts, htokens, hts⟩ := tokens_of_reads (reads_memberOf hp hk) fun _ => ⟨_, rfl⟩
  obtain ⟨t₁, ts, rfl, h₁, hts⟩ := List.map_eq_cons_iff.mp hts
  obtain ⟨t₂, ts, rfl, h₂, hts⟩ := List.map_eq_cons_iff.mp hts
  obtain ⟨t₃, ts, rfl, h₃, hts⟩ := List.map_eq_cons_iff.mp hts
  obtain ⟨t₄, ts, rfl, h₄, hts⟩ := List.map_eq_cons_iff.mp hts
  obtain rfl := List.map_eq_nil_iff.mp hts
  have h₁ : t₁.kind = .name p := congrArg Prod.fst h₁
  have h₂ : t₂.kind = .sign .dot := congrArg Prod.fst h₂
  have h₃ : t₃.kind = .name k := congrArg Prod.fst h₃
  have h₄ : t₄.kind = .stop := congrArg Prod.fst h₄
  have ends : EndsExpr t₄.kind := by
    rw [h₄]
    exact ⟨by decide, fun _ => rfl, rfl, rfl⟩
  have value : Gives False (levels 4 1).unary [t₁, t₂, t₃, t₄] (.member (.name p) k) [t₄] :=
    .unaryName h₁ (.suffixesMember h₂ h₃ (.suffixesDone ends.operand)) ends.operand
  have hstop : expectStop.run [t₄] = .ok ((), [t₄]) := by
    rw [run_expectStop, headKind, h₄]
    rfl
  refine ⟨2, ?_⟩
  rw [runOn, except_bind_of_ok htokens]
  show ((wholeExpr 2 4).run [t₁, t₂, t₃, t₄] >>= fun r => pure r.1) = _
  have whole : Gives False (levels 4 2).assignment [t₁, t₂, t₃, t₄] (.member (.name p) k) [t₄] :=
    .assignment (fun h => by cases h) fun r hr => by
      cases hr
      exact value.operand ends
  rw [wholeExpr, run_bind_of_ok _ whole.run, run_bind_of_ok _ hstop]
  rfl

/-- The expression that reads a member under a name. -/
def memberPhrase : Phrase where
  text := " " ++ p ++ "." ++ k ++ " "
  tree := .member (.name p) k
  expresses := expresses_memberOf hp hk
  plain := trivial
  closed := by
    have hslash : '/' ∉ (" " ++ p ++ "." ++ k ++ " ").toList := by
      simp only [String.toList_append, List.mem_append, not_or]
      exact ⟨⟨⟨⟨by decide, not_mem_of_isName hp (by decide)⟩, by decide⟩,
        not_mem_of_isName hk (by decide)⟩, by decide⟩
    exact CommentsEnd.not_open fun rest hs => absurd (hs.subset List.mem_cons_self) hslash
  unmarked := by
    refine .of_not_mem ?_
    simp only [String.toList_append, List.mem_append, not_or]
    exact ⟨⟨⟨⟨by decide, not_mem_of_isName hp (by decide)⟩, by decide⟩,
      not_mem_of_isName hk (by decide)⟩, by decide⟩

end

/-- The line that reads a member under a name, and nothing else. -/
def memberLine {p k : String} (hp : isName p = true) (hk : isName k = true) : Line :=
  ⟨⟨"", .nil _ _⟩, [⟨false, memberPhrase hp hk, ⟨"", .nil _ _⟩⟩]⟩

/-- The sheet of that line. -/
def memberSheet {p k : String} (hp : isName p = true) (hk : isName k = true) : Sheet :=
  .line (memberLine hp hk)

theorem text_memberSheet {p k : String} (hp : isName p = true) (hk : isName k = true) :
    (memberSheet hp hk).text = "<%= " ++ p ++ "." ++ k ++ " %>" := by
  have opening : "<%= " = "<%=" ++ " " := by decide
  have closing : " %>" = " " ++ "%>" := by decide
  show Line.text _ = _
  rw [opening, closing]
  simp only [memberLine, Line.text, Segment.text, memberPhrase, List.map_cons, List.map_nil, String.join_cons,
    String.join_nil, String.append_assoc, String.empty_append, String.append_empty,
    Bool.false_eq_true, if_false]

/-! ### Compiling -/

namespace Template

/-- The function of a template with a name for its data. -/
theorem function_of_compile_named {settings : Settings} {name text : String} {t : Template}
    (h : settings.dataName = some name) (ht : compile settings text = .ok t) :
    isName (Text.trim name) = true ∧ ∃ stmts,
      parseBody (Body.ofTemplate (pieces settings text)) = .ok stmts ∧
      t.function = functionOf (Text.trim name) stmts := by
  by_cases hbare : Variable.isBare name = true
  · rw [compile_of_bare h text hbare] at ht
    cases hb : build (Text.trim name) (Body.ofTemplate (pieces settings text)) with
    | error e =>
        rw [hb] at ht
        cases ht
    | ok d =>
        rw [hb] at ht
        cases ht
        obtain ⟨hp, stmts, hparse, rfl⟩ := build_eq_ok.mp hb
        exact ⟨hp, stmts, hparse, rfl⟩
  · rw [compile_of_not_bare h text hbare] at ht
    cases ht

end Template

theorem Sheet.function_of_compile_named (sheet : Sheet) {name : String} {t : Template}
    (ht : Template.compile (Template.standardNamed name) sheet.text = .ok t) :
    t.function = functionOf (Text.trim name) sheet.allStmts := by
  obtain ⟨-, stmts, hparse, hfunction⟩ := Template.function_of_compile_named rfl ht
  have hparse : parseBody sheet.body = .ok stmts := hparse
  rcases sheet.parseBody_body with ⟨pos, h⟩ | h
  · rw [h] at hparse
    cases hparse
  · rw [h] at hparse
    cases hparse
    exact hfunction

/-! ### Rendering -/

/-- The names that stand for something else than the data where a template's statements run, though a
parameter can have them. -/
def takenNames : List String :=
  ["_", "__p", "print"]

/-- A text as a result, if a string can be as long. -/
def limited (text : String) : Except Stop String :=
  if maxStringBytes < text.utf8ByteSize then .error (.fault .stringLength) else .ok text

theorem joined_empty (a : String) : joined "" a =
    if maxStringBytes < a.utf8ByteSize then fail .stringLength else pure a := by
  simp [joined]

theorem joined_empty_right (a : String) : joined a "" =
    if maxStringBytes < a.utf8ByteSize then fail .stringLength else pure a := by
  simp [joined]

/-- What a member sheet writes to an empty output is the text of the member. -/
theorem made_memberSheet {p k : String} (hp : isName p = true) (hk : isName k = true) {s : Store}
    {ρ : Valuation} {w : Value} (h : getProperty (ρ p) k s = .ok w s) :
    made ((memberSheet hp hk).write ρ "" s) = limited (s.written false w) := by
  have value : (memberPhrase hp hk).tree.value ρ s = .ok w s := h
  have written : (memberSheet hp hk).write ρ "" s =
      (joined "" (s.written false w) >>= fun text => joined text "" >>= joined "") s := by
    simp only [memberSheet, memberLine, Sheet.write, Line.write, List.foldlM_cons, List.foldlM_nil, Segment.write,
      bind_pure, bind_assoc]
    rw [Script.run_bind, value]
    rfl
  rw [written, limited]
  generalize s.written false w = text
  -- The text is joined to something empty three times over, and each time it is measured.
  rw [joined_empty]
  split
  · rfl
  · rename_i hfits
    rw [pure_bind, joined_empty_right, if_neg hfits, pure_bind, joined_empty, if_neg hfits]
    rfl

/-- **A call of a member sheet's function**, whose parameter stands for the data. -/
theorem apply_memberSheet {p k : String} (hp : isName p = true) (hk : isName k = true)
    (hfree : p ∉ takenNames) {data : Json.Document} {v w : Value} {s : Store}
    (hdata : importDocument data Store.initial = .ok v s) (hw : getProperty v k s = .ok w s) :
    ∃ enough, ∀ n, enough ≤ n →
      (Template.functionOf p (memberSheet hp hk).allStmts).apply n data =
        limited (s.written false w) := by
  obtain ⟨hv, g, g', hsize⟩ := start_of_import hdata (entryScope p v preludeNames)
  have hne : ∀ word ∈ takenNames, p ≠ word := fun word hm he => hfree (he ▸ hm)
  have carries : Carries (fun out => .return (.string out)) (fun _ => v) [p] callEnv
      (fun n => execAll n ((memberSheet hp hk).stmts ++ [returnStatement]) callEnv)
      ((memberSheet hp hk).write fun _ => v) := by
    -- One directive reads the name before anything is written, so the name need not be foreign.
    have steady : (memberLine hp hk).Steady [p] := .inr (Nat.le_refl 1)
    have last : Carries (fun out => .return (.string out)) (fun _ => v) [] callEnv
        (fun n => execAll n [returnStatement] callEnv) pure := carries_returnStatement
    have all := (Carries.line (memberLine hp hk) (fun _ => hv) steady (List.Subset.refl [p])).cons
      (List.nil_subset _) nofun last
    simp only [bind_pure] at all
    exact all
  have entered := get?_entryScope p v preludeNames
  generalize hc : entryScope p v preludeNames = c at entered g'
  have hscopes : ((s.withDepth 1).withScopes (callScopes c)).scopes = callScopes c := rfl
  obtain ⟨r, settles, hr⟩ := settles_declared carries g' hsize hscopes
    (fun n hm => by
      rw [entered, if_pos hm]
      split
      · exact ⟨_, rfl⟩
      · split <;> exact ⟨_, rfl⟩)
    (by rw [entered, if_pos rfl])
    (fun n hm => by
      obtain rfl := List.mem_singleton.mp hm
      rw [Scope.get?_put_of_ne (hne _ (by decide)), Scope.get?_put_of_ne (hne _ (by decide)), entered,
        if_neg (hne _ (by decide)), if_pos rfl])
  have hoisted := (memberSheet hp hk).hoistedNames_allStmts
  have called : Settles (fun n => execAll n (memberSheet hp hk).allStmts callEnv)
      ((s.withDepth 1).withScopes (callScopes
        (entryScope p v (hoistedNames (memberSheet hp hk).allStmts)))) r := by
    rw [hoisted, hc]
    exact settles
  have functions : declareFunctions callEnv (memberSheet hp hk).allStmts = pure () :=
    (memberSheet hp hk).declareFunctions_stmts callEnv [returnStatement]
  obtain ⟨enough, h⟩ := Script.apply_eventually hdata functions called
  refine ⟨enough, fun n hn => (h n hn).trans (hr.trans ?_)⟩
  have same := made_of_heap (t := (s.withDepth 1).withScopes (callScopes c)) (carries.data "") g g' rfl
  exact same.trans (made_memberSheet hp hk hw)

/-- **An accepted name exposes the data.**  A template that reads a member of its data under their name
renders to the text of the member, and to nothing if the member is absent or `null`, as long as the
function of the template does not bind the name itself. -/
theorem Template.render_member {name key : String} {t : Template} (hk : isName key = true)
    (hfree : Text.trim name ∉ takenNames)
    (ht : compile (standardNamed name) ("<%= " ++ Text.trim name ++ "." ++ key ++ " %>") = .ok t)
    (members : List (String × Json.Document)) : ∃ enough, ∀ steps, enough ≤ steps →
      t.render steps (.object members) = limited (Json.writtenText (Json.lastValue? members key)) := by
  obtain ⟨hp, -⟩ := function_of_compile_named rfl ht
  rw [← text_memberSheet hp hk] at ht
  obtain ⟨v, s, hdata, -⟩ := grown_importDocument (.object members) Store.initial
  obtain ⟨w, hw, htext⟩ := getProperty_importDocument hdata key
  rw [← htext]
  simp only [render, (memberSheet hp hk).function_of_compile_named ht]
  exact apply_memberSheet hp hk hfree hdata hw

/-- The last of two members with one key, under a name with blanks around it. -/
theorem Template.render_member_lastOfTwo : isName "x" = true ∧ Text.trim " data\t" ∉ takenNames ∧
    ∃ t, compile (standardNamed " data\t")
        ("<%= " ++ Text.trim " data\t" ++ "." ++ "x" ++ " %>") = .ok t ∧
      ∃ enough, ∀ steps, enough ≤ steps →
        t.render steps (.object [("x", .null), ("x", .array [.string "a", .null, .bool true])]) =
          .ok "a,,true" := by
  have hk : isName "x" = true := by decide
  have hfree : Text.trim " data\t" ∉ takenNames := by decide
  have hcompiles : (compile (standardNamed " data\t")
      ("<%= " ++ Text.trim " data\t" ++ "." ++ "x" ++ " %>")).toOption.isSome = true := by
    decide +kernel
  cases ht : compile (standardNamed " data\t")
      ("<%= " ++ Text.trim " data\t" ++ "." ++ "x" ++ " %>") with
  | error e =>
      rw [ht] at hcompiles
      cases hcompiles
  | ok t =>
      obtain ⟨enough, h⟩ := Template.render_member hk hfree ht
        [("x", .null), ("x", .array [.string "a", .null, .bool true])]
      exact ⟨hk, hfree, t, rfl, enough, fun steps hle => (h steps hle).trans (by decide +kernel)⟩

end Stencil
