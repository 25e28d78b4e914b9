import PackScript.Proofs.Control.Switch

namespace PackScript

/-!
# All structured statements

* `Stmt.exec_stays` — a statement outside of loops and switches does not break.
* `Compile.stmts_lowers` — lists of statements.
* `lowering_stmt` — every structured statement is compiled to code that does what it means.
-/

variable {c : Compile Unit} {body : List Stmt} {cases : List SwitchCase} {st : Stmt}
  {act : Store.Action}

/-! ### Statements that do not break -/

namespace Store

variable {act act' : Action}

theorem stays_andThen (h : act.Stays) (h' : act'.Stays) : (andThen act act').Stays := by
  intro σ flow σ' hresult
  rw [andThen] at hresult
  rcases hact : act σ with _ | ⟨_ | _, σ1⟩
  · rw [hact] at hresult
    cases hresult
  · rw [hact] at hresult
    exact h' σ1 flow σ' hresult
  · exact absurd (h σ .broke σ1 hact) (by decide)

theorem stays_leave (act : Action) : (leave act).Stays := by
  intro σ flow σ' hresult
  obtain ⟨⟨_, σ1⟩, _, hpair⟩ := Option.map_eq_some_iff.1 hresult
  exact (congrArg Prod.fst hpair).symm

theorem stays_loop (round : Store → Option (Bool × Store)) : (loop round).Stays := by
  intro σ flow σ' hresult
  obtain ⟨σ1, _, hpair⟩ := Option.map_eq_some_iff.1 hresult
  exact (congrArg Prod.fst hpair).symm

end Store

mutual

/-- A structured statement with nothing to break out of does not break. -/
theorem Stmt.exec_stays {names : List String} :
    ∀ {st : Stmt}, st.isStructured names false = true → Store.Action.Stays st.exec
  | .expr _ _, _ => by
    intro σ flow σ' hresult
    rw [Stmt.exec] at hresult
    exact (congrArg Prod.fst (Option.some.inj hresult)).symm
  | .block ⟨body, _⟩, h => by
    rw [Stmt.isStructured] at h
    have hbody := execAll_stays h
    intro σ flow σ' hresult
    rw [Stmt.exec] at hresult
    exact hbody σ flow σ' hresult
  | .branch test yes none _, h => by
    simp only [Stmt.isStructured, Bool.and_eq_true] at h
    have hyes := Stmt.exec_stays h.1.2
    intro σ flow σ' hresult
    rw [Stmt.exec] at hresult
    split at hresult
    · exact hyes σ flow σ' hresult
    · exact (congrArg Prod.fst (Option.some.inj hresult)).symm
  | .branch test yes (some no) _, h => by
    simp only [Stmt.isStructured, Bool.and_eq_true] at h
    have hyes := Stmt.exec_stays h.1.2
    have hno := Stmt.exec_stays h.2
    intro σ flow σ' hresult
    rw [Stmt.exec] at hresult
    split at hresult
    · exact hyes σ flow σ' hresult
    · exact hno σ flow σ' hresult
  | .whileLoop test body _, _ => by
    intro σ flow σ' hresult
    rw [Stmt.exec] at hresult
    exact Store.stays_loop _ σ flow σ' hresult
  | .doWhile body test _, _ => by
    intro σ flow σ' hresult
    rw [Stmt.exec] at hresult
    exact Store.stays_loop _ σ flow σ' hresult
  | .forLoop init test update body _, _ => by
    intro σ flow σ' hresult
    rw [Stmt.exec] at hresult
    exact Store.stays_loop _ _ flow σ' hresult
  | .switch subject cases _, _ => by
    intro σ flow σ' hresult
    rw [Stmt.exec] at hresult
    exact Store.stays_leave _ σ flow σ' hresult
  | .breaking _ _, h => by simp [Stmt.isStructured] at h
  | .declare _, h | .function _ _, h | .classDecl _ _, h | .forOf _ _ _ _, h
  | .returning _ _, h | .unsupported _ _, h | .empty _, h => by simp [Stmt.isStructured] at h

/-- Structured statements with nothing to break out of do not break. -/
theorem execAll_stays {names : List String} :
    ∀ {body : List Stmt}, areStructured names false body = true → Store.Action.Stays (execAll body)
  | [], _ => by
    intro σ flow σ' hresult
    rw [execAll] at hresult
    exact (congrArg Prod.fst (Option.some.inj hresult)).symm
  | st :: rest, h => by
    rw [areStructured, Bool.and_eq_true] at h
    have hstays := Store.stays_andThen (Stmt.exec_stays h.1) (execAll_stays h.2)
    intro σ flow σ' hresult
    rw [execAll] at hresult
    exact hstays σ flow σ' hresult

end

/-! ### Lists of statements -/

section

variable {names : List String} {inside : Bool}

theorem areStructured_iff :
    areStructured names inside body = true ↔ ∀ st ∈ body, st.isStructured names inside = true := by
  induction body with
  | nil => simp [areStructured]
  | cons st rest ih => simp [areStructured, ih]

theorem casesStructured_iff :
    casesStructured names cases = true ↔ ∀ c ∈ cases,
      c.test.all (·.isLiteral) = true ∧ areStructured names true c.body = true := by
  induction cases with
  | nil => simp [casesStructured]
  | cons c rest ih =>
    obtain ⟨test, body, span⟩ := c
    simp [casesStructured, ih, and_assoc]

/-- A structured statement declares nothing. -/
theorem Stmt.lexicalNames_of_isStructured (h : st.isStructured names inside = true) :
    Compile.lexicalNames st = [] ∧ st.isFunction = false := by
  cases st <;> first | exact ⟨rfl, rfl⟩ | simp [Stmt.isStructured] at h

/-- Without functions, statements keep their order. -/
theorem functionsFirst_eq_self (h : ∀ st ∈ body, st.isFunction = false) :
    functionsFirst body = body := by
  have hfunctions : body.filter (·.isFunction) = [] := by
    rw [List.filter_eq_nil_iff]
    exact fun st hst => by rw [h st hst]; exact Bool.false_ne_true
  have hothers : body.filter (!·.isFunction) = body := by
    rw [List.filter_eq_self]
    exact fun st hst => by rw [h st hst]; rfl
  rw [functionsFirst, hfunctions, hothers]
  rfl

/-- The statements of a list are smaller than the list. -/
theorem size_le_stmtsSize (h : st ∈ body) : st.size ≤ stmtsSize body := by
  induction body with
  | nil => cases h
  | cons st' rest ih =>
    rw [stmtsSize]
    rcases List.mem_cons.1 h with rfl | h
    · omega
    · have := ih h
      omega

/-- The tests and statements of a case are smaller than the cases. -/
theorem size_lt_casesSize {c : SwitchCase} (h : c ∈ cases) :
    optionSize c.test + stmtsSize c.body < casesSize cases := by
  induction cases with
  | nil => cases h
  | cons c' rest ih =>
    obtain ⟨test, body, span⟩ := c'
    rw [casesSize]
    rcases List.mem_cons.1 h with rfl | h
    · show optionSize test + stmtsSize body < _
      omega
    · have := ih h
      omega

end

namespace Compile

variable {L : Layout} {k : Lowering} {inside : Bool}

theorem forM_lowers (hbody : ∀ st ∈ body, Lowers L inside (k.stmt st) st.exec) :
    Lowers L inside (body.forM k.stmt) (execAll body) := by
  induction body with
  | nil => exact Lowers.skip.congr fun σ => by rw [execAll]; rfl
  | cons st rest ih =>
    have hrest := ih fun st' hst' => hbody st' (List.mem_cons_of_mem _ hst')
    have hboth := (hbody st List.mem_cons_self).andThen hrest
    rw [List.forM_eq_forM, List.forM_cons]
    exact hboth.congr fun σ => by rw [execAll]

/-- Statements that declare nothing are compiled one after the other. -/
theorem stmts_lowers (hstructured : areStructured L.names inside body = true)
    (hbody : ∀ st ∈ body, Lowers L inside (k.stmt st) st.exec) :
    Lowers L inside (stmts k body) (execAll body) := by
  have hnames : body.flatMap lexicalNames = [] := by
    rw [List.flatMap_eq_nil_iff]
    exact fun st hst => (Stmt.lexicalNames_of_isStructured
      (areStructured_iff.1 hstructured st hst)).1
  have hfirst : functionsFirst body = body := functionsFirst_eq_self fun st hst =>
    (Stmt.lexicalNames_of_isStructured (areStructured_iff.1 hstructured st hst)).2
  intro s hs hinside
  have hhoist : hoistNames body s = .ok () s := by
    refine (bind_of_ok rfl).trans ?_
    rw [hnames]
    cases s.current.scopes.getLast? <;> rfl
  refine .read hhoist ?_
  rw [hfirst]
  exact forM_lowers hbody s hs hinside

/-- The body of a unit, whose scope is open already. -/
theorem unitBody_lowers {body : Stmt} (hbody : Lowers L inside (k.stmt body) body.exec)
    (hblock : ∀ b, body = .block b → Lowers L inside (stmts k b.body) (execAll b.body)) :
    Lowers L inside (unitBody k body) body.exec := by
  cases body with
  | block b =>
    obtain ⟨body, span⟩ := b
    exact (hblock _ rfl).congr fun σ => by rw [Stmt.exec]
  | _ => exact hbody

theorem inLoop_lowers (h : Lowers L inside c act) : Lowers L inside (inLoop c) act := by
  intro s hs hinside
  have hbody : Yields { s with context := s.context.enter 0 1 } c fun _ is s' =>
      Simulates L s act is s' := h _ (hs.enter 0 1) hinside
  exact enter_yields 0 1 hbody fun _ _ _ h => h

theorem inScope_lowers (h : Lowers L inside c act) : Lowers L inside (inScope c) act := by
  intro s hs hinside
  have hbody : Yields (openScope s) c fun _ is s' => Simulates L s act is s' :=
    h _ hs.openScope hinside
  exact inScope_yields hbody fun _ _ _ h => h

end Compile

/-! ### All statements -/

section

variable {L : Layout} {n : Nat} {inside : Bool}

/-- An assignment or command. -/
theorem effect_lowers {e : Expr} (hsize : e.size < n)
    (he : (e.isAssignment L.names || e.isCommand) = true) :
    Lowers L inside (Compile.effect (lowering n) (some e)) (Store.change (e.perform ·)) := by
  obtain ⟨n, rfl⟩ : ∃ k, n = k + 1 := ⟨n - 1, by omega⟩
  intro s hs _
  suffices hexpr : Compile.Yields s ((lowering (n + 1)).expr e) fun _ is s' =>
      Simulates L s (Store.change (e.perform ·)) is s' by
    refine hexpr.bind fun _ is s' _ hcode => ?_
    refine .pure ?_
    rwa [List.append_nil]
  rw [Bool.or_eq_true] at he
  rcases he with he | he
  · -- an assignment
    unfold Expr.isAssignment at he
    split at he
    · next id right span =>
      rw [Bool.and_eq_true] at he
      have hright : ExprLowered L (lowering n) right := by
        refine lowering_expr L ?_ he.2
        simp only [Expr.size, AssignTarget.size] at hsize
        omega
      exact Compile.lowerAssign_yields (List.contains_iff_mem.1 he.1) hright hs span
    · cases he
  · -- a command
    unfold Expr.isCommand at he
    split at he
    · next id text span' span =>
      obtain ⟨n, rfl⟩ : ∃ k, n = k + 1 := by
        simp only [Expr.size, exprsSize] at hsize
        exact ⟨n - 1, by omega⟩
      exact Compile.lowerCommand_yields (beq_iff_eq.1 he) rfl hs span
    · cases he

/-- What a loop does first, and after each round. -/
theorem effect?_lowers {e : Option Expr} (hsize : optionSize e < n)
    (he : e.all (·.isAssignment L.names) = true) :
    Lowers L inside (Compile.effect (lowering n) e) (Store.change (performed e)) := by
  cases e with
  | none => exact Lowers.skip
  | some e =>
    have hassign : (e.isAssignment L.names || e.isCommand) = true := by
      rw [Bool.or_eq_true]
      exact .inl he
    exact effect_lowers hsize hassign

theorem lowerForInit_lowers {init : Option ForInit} (hsize : ∀ i ∈ init, i.size < n)
    (hinit : ForInit.isStructured L.names init = true) :
    Lowers L inside (Compile.lowerForInit (lowering n) init)
      (Store.change (ForInit.perform · init)) := by
  match init with
  | none => exact Lowers.skip
  | some (.declare d) => simp [ForInit.isStructured] at hinit
  | some (.expr e) =>
    exact effect?_lowers (e := some e) (hsize _ rfl) hinit

/-- Every structured statement is compiled to code that does what it means. -/
theorem lowering_stmt (hsize : st.size < n) (hst : st.isStructured L.names inside = true) :
    Lowers L inside ((lowering n).stmt st) st.exec := by
  induction n generalizing st inside with
  | zero => exact absurd hsize (Nat.not_lt_zero _)
  | succ n ih =>
    -- lists of smaller statements, and units of one
    have hlist : ∀ {body inside}, stmtsSize body < n → areStructured L.names inside body = true →
        Lowers L inside (Compile.stmts (lowering n) body) (execAll body) := by
      intro body inside hsize hbody
      refine Compile.stmts_lowers hbody fun st hst => ?_
      have hle := size_le_stmtsSize hst
      exact ih (by omega) (areStructured_iff.1 hbody st hst)
    have hunit : ∀ {body : Stmt} {inside}, body.size < n → body.isStructured L.names inside = true →
        Lowers L inside (Compile.unitBody (lowering n) body) body.exec := by
      intro body inside hsize hbody
      refine Compile.unitBody_lowers (ih hsize hbody) ?_
      rintro ⟨b, span⟩ rfl
      simp only [Stmt.size, Block.size] at hsize
      rw [Stmt.isStructured] at hbody
      exact hlist (by show stmtsSize b < n; omega) hbody
    have hpure : ∀ {e : Expr}, e.size < n → e.isPure L.names = true →
        ExprLowered L (lowering n) e := fun hsize he => lowering_expr L hsize he
    cases st with
    | expr e span =>
      simp only [Stmt.size] at hsize
      rw [Stmt.isStructured] at hst
      exact (effect_lowers (by omega) hst).congr fun σ => by rw [Stmt.exec]; rfl
    | block b =>
      obtain ⟨body, span⟩ := b
      simp only [Stmt.size, Block.size] at hsize
      rw [Stmt.isStructured] at hst
      have hbody := Compile.inScope_lowers (hlist (by omega) hst)
      exact hbody.congr fun σ => by rw [Stmt.exec]
    | branch test yes no span =>
      have hno : ∀ b ∈ no, b.size < n ∧ b.isStructured L.names inside = true := by
        rintro b rfl
        simp only [Stmt.size] at hsize
        simp only [Stmt.isStructured, Bool.and_eq_true] at hst
        exact ⟨by omega, hst.2⟩
      have hsizes : test.size < n ∧ yes.size < n := by
        cases no <;> simp only [Stmt.size] at hsize <;> exact ⟨by omega, by omega⟩
      have hparts : test.isPure L.names = true ∧ yes.isStructured L.names inside = true := by
        cases no <;> simp only [Stmt.isStructured, Bool.and_eq_true] at hst <;> exact hst.1
      have hbranch := Compile.lowerBranch_lowers (hpure hsizes.1 hparts.1)
        (hunit hsizes.2 hparts.2) (fun b hb => hunit (hno b hb).1 (hno b hb).2)
        (fun hout => Stmt.exec_stays (hout ▸ hparts.2))
        (fun b hb hout => Stmt.exec_stays (hout ▸ (hno b hb).2))
      exact hbranch.congr fun σ => by cases no <;> rw [Stmt.exec] <;> rfl
    | whileLoop test body span =>
      simp only [Stmt.size] at hsize
      simp only [Stmt.isStructured, Bool.and_eq_true] at hst
      have htest : ∀ e ∈ some test, ExprLowered L (lowering n) e := by
        rintro _ ⟨⟩
        exact hpure (by omega) hst.1
      have hbody : Lowers L true (Compile.unitBody (lowering n) body) body.exec :=
        hunit (by omega) hst.2
      have hupdate : Lowers L true (Compile.effect (lowering n) none)
          (Store.change (performed none)) := effect?_lowers (by rw [optionSize]; omega) rfl
      have hloop : Lowers L inside (Compile.runLoop (Compile.loopRound (lowering n) (some test)
          body none)) _ := Compile.runLoop_lowers fun s hs hinside =>
        Compile.loopRound_yields htest hbody hupdate hs hinside
      exact hloop.congr fun σ => by rw [Stmt.exec]; rfl
    | doWhile body test span =>
      simp only [Stmt.size] at hsize
      simp only [Stmt.isStructured, Bool.and_eq_true] at hst
      have hbody : Lowers L true (Compile.unitBody (lowering n) body) body.exec :=
        hunit (by omega) hst.2
      have htest : ExprLowered L (lowering n) test := hpure (by omega) hst.1
      have hloop : Lowers L inside (Compile.runLoop (Compile.doWhileRound (lowering n) body test))
          _ := Compile.runLoop_lowers fun s hs hinside =>
        Compile.doWhileRound_yields htest hbody hs hinside
      exact hloop.congr fun σ => by rw [Stmt.exec]
    | forLoop init test update body span =>
      simp only [Stmt.isStructured, Bool.and_eq_true] at hst
      obtain ⟨⟨⟨hinit, htest⟩, hupdate⟩, hbody⟩ := hst
      have hsizes : (∀ i ∈ init, i.size < n) ∧ optionSize test < n ∧ optionSize update < n ∧
          body.size < n := by
        cases init <;> simp only [Stmt.size] at hsize
        · exact ⟨fun _ hnone => (nomatch hnone), by omega, by omega, by omega⟩
        · refine ⟨?_, by omega, by omega, by omega⟩
          rintro _ ⟨⟩
          omega
      have htest' : ∀ e ∈ test, ExprLowered L (lowering n) e := by
        rintro e rfl
        exact hpure hsizes.2.1 htest
      have hloop : Lowers L inside (Compile.runLoop (Compile.loopRound (lowering n) test body
          update)) _ := Compile.runLoop_lowers fun s hs hinside =>
        Compile.loopRound_yields htest' (hunit hsizes.2.2.2 hbody)
          (effect?_lowers hsizes.2.2.1 hupdate) hs hinside
      have hfor := Compile.inLoop_lowers (Compile.inScope_lowers
        ((lowerForInit_lowers hsizes.1 hinit).andThen hloop))
      exact hfor.congr fun σ => by rw [Stmt.exec]; rfl
    | switch subject cases span =>
      simp only [Stmt.size] at hsize
      simp only [Stmt.isStructured, Bool.and_eq_true] at hst
      have hcases := casesStructured_iff.1 hst.2
      have htests : ∀ c ∈ cases, ∀ e ∈ c.test, ExprLowered L (lowering n) e := by
        intro c hc e he
        have hlt := size_lt_casesSize hc
        have hliteral : e.isLiteral = true := by
          have hall := (hcases c hc).1
          rw [he] at hall
          exact hall
        rw [he, optionSize] at hlt
        refine hpure (by omega) ?_
        cases e <;> first | rfl | cases hliteral
      have hbodies : ∀ c ∈ cases,
          Lowers L true (Compile.stmts (lowering n) c.body) (execAll c.body) := by
        intro c hc
        have hlt := size_lt_casesSize hc
        exact hlist (by omega) (hcases c hc).2
      have hswitch : Lowers L inside (Compile.lowerSwitch (lowering n) subject cases) _ :=
        Compile.lowerSwitch_lowers (hpure (by omega) hst.1) htests hbodies
      refine hswitch.congr fun σ => ?_
      rw [Stmt.exec, Compile.casesAction, Store.leave, Store.leave]
      simp
    | breaking label span =>
      simp only [Stmt.isStructured, Bool.and_eq_true] at hst
      obtain ⟨rfl, hlabel⟩ := hst
      intro s hs hinside
      have hbreak : Compile.lowerBreak label span s =
          Compile.emit (.returnWith Instr.breakCode) s := by
        rw [Compile.lowerBreak, Option.isNone_iff_eq_none.1 hlabel]
        refine (Compile.bind_of_ok rfl).trans ?_
        rw [if_neg (Nat.ne_of_gt (hinside rfl))]
      obtain ⟨_, is, s', hrun, hemits, his⟩ :=
        Compile.emit_yields (.returnWith Instr.breakCode) s
      refine ⟨(), is, s', hbreak.trans hrun, hemits, fun m σ _ hm => ?_⟩
      rw [his, Stmt.exec]
      exact Run.follows_break hm
    | _ => simp [Stmt.isStructured] at hst

end

end PackScript
