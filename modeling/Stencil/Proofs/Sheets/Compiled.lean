import Stencil.Proofs.Sheets.Trees

/-!
# Sheets — compiled sheets

The body that a sheet becomes parses to the declarations that come first, the statements of the
sheet, and the return of the output, unless it nests too deep (`Sheet.parseBody_body`).
-/

namespace Stencil
open Script Script.Parser Template

namespace Script.Parser

variable {α : Type} {deep deep' : Prop} {ts rest : List Token} {a : α} {p : Parser α}

theorem Gives.imp (h : Gives deep p ts a rest) (hd : deep → deep') : Gives deep' p ts a rest :=
  h.imp_left fun ⟨hdeep, he⟩ => ⟨hd hdeep, he⟩

/-- A list of statements that takes all tokens is a body. -/
theorem parseBody_of_gives {source : String} {stmts : List Stmt} {t : Token}
    (htokens : tokens source = .ok ts) (ht : t.kind = .stop)
    (h : Gives deep (statements (levels ts.length maxNesting) false ts.length) ts stmts [t]) :
    (deep ∧ ∃ pos, parseBody source = .error ⟨.nestingTooDeep, pos⟩) ∨
      parseBody source = .ok stmts := by
  rcases h with ⟨hd, pos, e⟩ | e
  · refine .inl ⟨hd, pos, ?_⟩
    have hwhole : (wholeBody ts.length).run ts = .error ⟨.nestingTooDeep, pos⟩ := by
      rw [wholeBody, run_bind_of_error _ e]
    rw [parseBody, runOn, except_bind_of_ok htokens, hwhole]
    rfl
  · exact .inr (parseBody_eq_ok.mpr ⟨ts, htokens, t, ht, e⟩)

end Script.Parser

/-- The statement that comes last. -/
def returnStatement : Stmt :=
  .return (some (.name "__p"))

namespace Sheet

/-- The body of a sheet's function. -/
def body (sheet : Sheet) : String :=
  Body.ofTemplate (Template.pieces .standard sheet.text)

/-- The statements of a sheet's function. -/
def allStmts (sheet : Sheet) : List Stmt :=
  preludeStatement :: (sheet.stmts ++ [returnStatement])

theorem toList_body (sheet : Sheet) :
    sheet.body.toList = Body.prelude.toList ++ sheet.script Body.epilogue.toList := by
  rw [body, show Template.pieces .standard sheet.text = _ from sheet.pieces_text none,
    Body.ofTemplate, String.toList_append, String.toList_append, List.append_assoc,
    toList_ofPieces]
  rfl

theorem reads_epilogue : Reads ('\n' :: Body.epilogue.toList)
    [(.keyword .return, true), (.name "__p", false), (.sign .semicolon, false)] ['\n'] :=
  .cons rfl (Next.wordBefore 'r' "eturn".toList (by decide) (by decide)
    (by decide)).newline <|
  .cons rfl (.space (.nameBefore "__p" (by decide) (by decide))) <|
  .cons rfl (.alone .semicolon (by decide) _) .nil

theorem gives_epilogue {ts : List Token} (hts : ts.map Token.mark =
      [(.keyword .return, true), (.name "__p", false), (.sign .semicolon, false)]) :
    GivesBody ts [returnStatement] := by
  obtain ⟨a, ts, rfl, ha, hts⟩ := List.map_eq_cons_iff.mp hts
  obtain ⟨b, ts, rfl, hb, hts⟩ := List.map_eq_cons_iff.mp hts
  obtain ⟨c, rfl, hc⟩ := List.map_eq_singleton_iff.mp hts
  have ha : a.kind = .keyword .return := congrArg Prod.fst ha
  have hline : b.newlineBefore = false := congrArg Prod.snd hb
  have hb : b.kind = .name "__p" := congrArg Prod.fst hb
  have hc : c.kind = .sign .semicolon := congrArg Prod.fst hc
  refine .one (by rw [ha]; rfl) fun x _ => .statement (fun _ => trivial) fun r _ =>
    .returnValue ha (by rw [hb]; rfl) (by rw [hb, hline]; rfl)
      (gives_atom (by rw [hb]; rfl) (show EndsExpr c.kind by rw [hc]; exact endsExpr_sign (by decide)))
      (.semicolon hc)

/-- **The body of a sheet** parses to the statements of the sheet, unless it nests too deep. -/
theorem parseBody_body (sheet : Sheet) :
    (∃ pos, parseBody sheet.body = .error ⟨.nestingTooDeep, pos⟩) ∨
      parseBody sheet.body = .ok sheet.allStmts := by
  obtain ⟨m, ms, hms, hr⟩ := sheet.reads Body.epilogue.toList
  have hreads := (reads_prelude _).append (hr.append reads_epilogue)
  rw [← toList_body] at hreads
  obtain ⟨ts, htokens, hts⟩ := tokens_of_reads hreads fun p => ⟨_, rfl⟩
  rw [List.append_assoc] at hts
  obtain ⟨first, ts, rfl, hfirst, hts⟩ := List.map_eq_append_iff.mp hts
  rw [List.append_assoc] at hts
  obtain ⟨us, ts, rfl, hus, hts⟩ := List.map_eq_append_iff.mp hts
  obtain ⟨final, last, rfl, hfinal, hlast⟩ := List.map_eq_append_iff.mp hts
  obtain ⟨t, rfl, ht⟩ := List.map_eq_singleton_iff.mp hlast
  have ht : t.kind = .stop := congrArg Prod.fst ht
  have hlen : first.length = preludeMarks.length := by rw [← hfirst, List.length_map]
  have hfirst := kinds_of_marks hfirst
  obtain ⟨v, first, rfl, hv, -⟩ := List.map_eq_cons_iff.mp hfirst
  have inner := (Sheet.gives hms hus).append (gives_epilogue hfinal)
  have nothing : ∀ (n room rounds : Nat), 0 ≤ rounds →
      Gives True (statements (levels n room) false rounds) [t] [] [t] := fun n room rounds _ =>
    .statementsNil (by rw [headKind, ht]; rfl)
  have hsize : 2 < (v :: first).length := by rw [hlen]; decide
  have htotal : (v :: first ++ (us ++ (final ++ [t]))).length =
      (v :: first).length + (us ++ final).length + 1 := by
    simp only [List.length_append, List.length_cons, List.length_nil]
    omega
  refine (parseBody_of_gives htokens ht ?_).imp_left (And.right (a := True))
  generalize (v :: first ++ (us ++ (final ++ [t]))).length = n at htotal ⊢
  have others := inner.gives (by omega) (nothing n maxNesting) (n - 1) (by omega)
  rw [List.append_assoc, List.append_nil] at others
  obtain ⟨n, rfl⟩ : ∃ m, n = m + 1 := ⟨n - 1, by omega⟩
  refine .statementsCons ?_ ((gives_prelude (show 1 < n + 1 by omega) hfirst (by omega)).imp
    False.elim) others
  rw [List.cons_append, headKind, hv]
  rfl

/-! ### Compiling -/

theorem build_of_error {p body : String} (hp : isName p = true) {e : ParseError}
    (h : parseBody body = .error e) :
    build p body = .error (.generation e (definitionText p body)) := by
  have hhelper : isName "_" = true := by decide
  simp only [build, Definition.build, List.find?_cons, hp, hhelper, Bool.not_true, List.find?_nil, h]
  rfl

/-- **Sheets compile**, unless they nest too deep, to a function that binds the members of the data
that the sheet names. -/
theorem compile_text (sheet : Sheet) :
    (∃ pos generated, Template.compile .standard sheet.text =
      .error (.generation ⟨.nestingTooDeep, pos⟩ generated)) ∨
    ∃ t, Template.compile .standard sheet.text = .ok t ∧
      t.function = boundFunction dataParameter sheet.allStmts := by
  rw [compile_default rfl]
  have hname : isName dataParameter = true := by decide
  rcases sheet.parseBody_body with ⟨pos, h⟩ | h
  · rw [show build dataParameter (Body.ofTemplate (Template.pieces .standard sheet.text)) = _ from
      build_of_error hname h]
    exact .inl ⟨pos, _, rfl⟩
  · rw [show build dataParameter (Body.ofTemplate (Template.pieces .standard sheet.text)) = _ from
      build_eq_ok.mpr ⟨hname, _, h, rfl⟩]
    exact .inr ⟨_, rfl, rfl⟩

end Sheet

end Stencil
