import Abacus.Proofs.ParseFaults
import Abacus.Proofs.TokenOrder

/-!
# Values that pass for operators

A list of tokens that was made by hand can have any value in the place of an operator: the code of an
addition as a number, a text, nothing at all. Where an operand is due, such a value is a sign if it denotes
an addition or a subtraction. Between operands it is not enough to denote an operator.

`Shaped` says what the tokens of an expression look like when the values between operands are not looked
at, and which tokens these are. The parser gets through such a list, or finds something too deep, or
stops at one of these tokens that is no operator. It never returns a tree in which such a token is left.
-/

namespace Abacus.Parse

/-! ### The shape of an expression -/

/-- What tokens can have the shape of. -/
inductive Shape where
  /-- An operand. -/
  | operand
  /-- Operators, with an operand behind each. -/
  | tail
  /-- An operand and what follows it. -/
  | expression

/-- `Shaped s w between`: the tokens `w` have the shape `s`, and `between` are those of them that stand
between operands, in their order. -/
inductive Shaped : Shape → List Token → List Token → Prop where
  /-- A number is an operand. -/
  | number {t : Token} {value : Number} : t.lexeme = .number value → Shaped .operand [t] []
  /-- So is a name, -/
  | identifier {t : Token} {name : String} : t.lexeme = .identifier name → Shaped .operand [t] []
  /-- an expression in parentheses, -/
  | group {o c : Token} {w between : List Token} : o.lexeme = .openParen → Shaped .expression w between →
      c.lexeme = .closeParen → Shaped .operand (o :: (w ++ [c])) between
  /-- and an operand behind a value that denotes an addition or a subtraction. -/
  | sign {t : Token} {w between : List Token} : Signs t .add ∨ Signs t .subtract → Shaped .operand w between →
      Shaped .operand (t :: w) between
  /-- Nothing follows. -/
  | nil : Shaped .tail [] []
  /-- Any value in the place of an operator, an operand, and what follows it. -/
  | cons {t : Token} {v w between between' : List Token} : t.lexeme.isOperator = true →
      Shaped .operand v between → Shaped .tail w between' → Shaped .tail (t :: (v ++ w)) (t :: (between ++ between'))
  /-- An operand and what follows it. -/
  | expression {v w between between' : List Token} : Shaped .operand v between → Shaped .tail w between' →
      Shaped .expression (v ++ w) (between ++ between')

/-! ### Reading a shape -/

/-- Reading stops because something is too deep, or at one of the tokens `between` that is no operator. -/
def Objects (between : List Token) (fault : Fault) : Prop :=
  fault.cause = .tooDeep ∨ (fault.cause = .noOperator ∧ fault.token ∈ between ∧ Counterfeit fault.token)

theorem Objects.mono {between between' : List Token} {fault : Fault} (h : Objects between fault)
    (hsub : between ⊆ between') : Objects between' fault :=
  h.imp_right fun ⟨hcause, hmem, hfalse⟩ => ⟨hcause, hsub hmem, hfalse⟩

/-- The reading leaves `rest` and has a result with the property `P`, or it stops as above. -/
def Sifts {α : Type} (between rest : List Token) (P : α → Prop) (x : Except Stop (Front α)) : Prop :=
  (∃ a, x = .ok (a, rest) ∧ P a) ∨ ∃ stop, x = .error stop ∧ Objects between stop.fault

section Sifts

variable {α β : Type} {between between' rest rest' : List Token} {P : α → Prop} {Q : β → Prop}

theorem Sifts.mono {x : Except Stop (Front α)} (h : Sifts between rest P x) (hsub : between ⊆ between') :
    Sifts between' rest P x :=
  h.imp_right fun ⟨stop, hstop, hobjects⟩ => ⟨stop, hstop, hobjects.mono hsub⟩

theorem Sifts.bind {x : Except Stop (Front α)} {f : Front α → Except Stop (Front β)} (hx : Sifts between rest P x)
    (hf : ∀ a, P a → Sifts between rest' Q (f (a, rest))) : Sifts between rest' Q (x >>= f) := by
  obtain ⟨a, rfl, ha⟩ | ⟨stop, rfl, hstop⟩ := hx
  · exact hf a ha
  · exact .inr ⟨stop, rfl, hstop⟩

theorem sifts_ok {a : α} (h : P a) : Sifts between rest P (.ok (a, rest)) := .inl ⟨a, rfl, h⟩

theorem sifts_tooDeep (t : Token) (rest' : List Token) (nesting : Nat) :
    Sifts between rest P (.error ⟨⟨.tooDeep, t⟩, rest', nesting⟩) := .inr ⟨_, rfl, .inl rfl⟩

end Sifts

/-- The tokens `between` are operators. -/
def AllGenuine (between : List Token) : Prop := ∀ t ∈ between, ¬ Counterfeit t

/-- The run takes its operators from the tokens `between`, and leaves out none that is no operator. -/
def Exposes (between : List Token) (run : List (Token × Expr)) : Prop :=
  (∀ p ∈ run, p.1 ∈ between ∧ p.1.lexeme.isOperator = true) ∧
    ∀ t ∈ between, Counterfeit t → t ∈ run.map Prod.fst

/-- What the parser makes of each shape. What stands between the operands of a run is not looked at before
the whole run has been read, and only then can be found to be no operator. -/
def Sifted : Shape → List Token → List Token → Prop
  | .operand, w, between => ∀ room rest, Sifts between rest (fun _ => AllGenuine between) (operand room (w ++ rest))
  | .tail, w, between => ∀ room rest fuel, (∀ t ∈ rest.head?, t.lexeme.isOperator = false) →
      (w ++ rest).length ≤ fuel → Sifts between rest (Exposes between) (operatorRun (operand room) fuel (w ++ rest))
  | .expression, w, between => ∀ room nesting rest, (∀ t ∈ rest.head?, t.lexeme.isOperator = false) →
      Sifts between rest (fun _ => AllGenuine between) (expression (operand room) nesting (w ++ rest))

/-- A run that can be resolved has operators only. -/
theorem genuine_of_mapM {run : List (Token × Expr)} {js : List Join}
    (h : run.mapM (fun (t, right) => toJoin t right) = .ok js) : ∀ p ∈ run, ¬ Counterfeit p.1 := by
  induction run generalizing js with
  | nil => simp
  | cons p run ih =>
    rw [List.mapM_cons] at h
    obtain ⟨j, hj, h⟩ := Except.bind_eq_ok_iff.mp h
    obtain ⟨js', hjs', -⟩ := Except.bind_eq_ok_iff.mp h
    refine List.forall_mem_cons.mpr ⟨?_, ih hjs'⟩
    rintro ⟨-, hnone⟩
    simp only [toJoin, hnone] at hj
    cases hj

/-- Resolving a run finds each of its operators that is none. -/
theorem sifts_resolve {between rest : List Token} {first : Expr} {run : List (Token × Expr)} (nesting : Nat)
    (hrun : Exposes between run) :
    Sifts between rest (fun _ => AllGenuine between) (match resolve first run with
      | .ok tree => .ok (tree, rest)
      | .error fault => .error ⟨fault, rest, nesting⟩) := by
  obtain ⟨hfrom, hall⟩ := hrun
  cases hres : resolve first run with
  | ok tree =>
    obtain ⟨js, hjs, -⟩ := resolve_eq_ok hres
    refine sifts_ok fun t ht hfalse => ?_
    obtain ⟨p, hp, rfl⟩ := List.mem_map.mp (hall t ht hfalse)
    exact genuine_of_mapM hjs p hp hfalse
  | error fault =>
    obtain ⟨t, rfl⟩ | ⟨p, hp, rfl, hnone⟩ := resolve_eq_error hres
    · exact sifts_tooDeep t rest nesting
    · obtain ⟨hmem, hop⟩ := hfrom p hp
      exact .inr ⟨_, rfl, .inr ⟨rfl, hmem, hop, hnone⟩⟩

/-- Behind an operand with operators only, a longer run exposes what the rest of it exposes. -/
theorem Exposes.cons {t : Token} {right : Expr} {between between' : List Token} {run : List (Token × Expr)}
    (ht : t.lexeme.isOperator = true) (hright : AllGenuine between) (hrun : Exposes between' run) :
    Exposes (t :: (between ++ between')) ((t, right) :: run) := by
  obtain ⟨hfrom, hall⟩ := hrun
  constructor
  · refine List.forall_mem_cons.mpr ⟨⟨List.mem_cons_self .., ht⟩, fun p hp => ?_⟩
    exact ⟨List.mem_cons_of_mem _ (List.mem_append_right _ (hfrom p hp).1), (hfrom p hp).2⟩
  · intro u hu hfalse
    simp only [List.mem_cons, List.mem_append] at hu
    rcases hu with rfl | hu | hu
    · exact List.mem_cons_self ..
    · exact absurd hfalse (hright u hu)
    · exact List.mem_cons_of_mem _ (hall u hu hfalse)

/-- Every shape is read as described. -/
theorem Shaped.sifted {s : Shape} {w between : List Token} (h : Shaped s w between) : Sifted s w between := by
  induction h with
  | number ht | identifier ht =>
    intro room rest
    rw [operand.eq_def]
    simp only [List.cons_append, List.nil_append, ht]
    exact sifts_ok (List.forall_mem_nil _)
  | @group o c w between ho _ hc ih =>
    intro room rest
    rw [operand.eq_def]
    simp only [List.cons_append, List.append_assoc, List.nil_append, ho]
    cases room with
    | zero => exact sifts_tooDeep ..
    | succ room =>
      refine (ih room _ _ (head_not_isOperator (.inl hc) rest)).bind fun e hgenuine => ?_
      simp only [closeGroup, hc, if_true]
      exact sifts_ok hgenuine
  | @sign t w between hs _ ih =>
    intro room rest
    rw [operand.eq_def]
    rcases hs with ⟨d, hd, hop⟩ | ⟨d, hd, hop⟩
    · simp only [List.cons_append, hd, hop]
      cases room with
      | zero => exact sifts_tooDeep ..
      | succ room => exact ih room rest
    · simp only [List.cons_append, hd, hop]
      cases room with
      | zero => exact sifts_tooDeep ..
      | succ room =>
        refine (ih room rest).bind fun e hgenuine => ?_
        obtain h | h := checkDepth_eq t (.unary t.position .negate e)
        · simp only [h]
          exact sifts_ok hgenuine
        · simp only [h]
          exact sifts_tooDeep ..
  | nil =>
    intro room rest fuel hrest _
    rw [List.nil_append, operatorRun_of_head hrest]
    exact sifts_ok ⟨List.forall_mem_nil _, List.forall_mem_nil _⟩
  | @cons t v w between between' ht _ _ ihv ihw =>
    intro room rest fuel hrest hfuel
    cases fuel with
    | zero => simp at hfuel
    | succ fuel =>
      have hfuel' : (w ++ rest).length ≤ fuel := by simp at hfuel ⊢; omega
      rw [List.cons_append, operatorRun, if_pos ht, List.append_assoc]
      have hright := (ihv room (w ++ rest)).mono
        (List.subset_cons_of_subset t (List.subset_append_left between between'))
      have hrun := (ihw room rest fuel hrest hfuel').mono
        (List.subset_cons_of_subset t (List.subset_append_right between between'))
      refine hright.bind fun e hgenuine => hrun.bind fun run hexposes => ?_
      exact sifts_ok (hexposes.cons ht hgenuine)
  | @expression v w between between' _ _ ihv ihw =>
    intro room nesting rest hrest
    rw [Parse.expression, List.append_assoc]
    have hfirst := (ihv room (w ++ rest)).mono (List.subset_append_left between between')
    have hrun := (ihw room rest _ hrest Nat.le.refl).mono (List.subset_append_right between between')
    refine hfirst.bind fun first hgenuine => hrun.bind fun run hexposes => ?_
    refine sifts_resolve nesting ⟨fun p hp => ?_, fun t ht hfalse => ?_⟩
    · exact ⟨List.mem_append_right _ (hexposes.1 p hp).1, (hexposes.1 p hp).2⟩
    · rcases List.mem_append.mp ht with ht | ht
      · exact absurd hfalse (hgenuine t ht)
      · exact hexposes.2 t ht hfalse

/-- A list with the shape of an expression has a tree only if all that stands between operands is an operator. -/
theorem tree_of_shaped {ts between : List Token} (h : Shaped .expression (body ts) between) :
    (∃ e, tree ts = .ok e ∧ AllGenuine between) ∨ ∃ fault, tree ts = .error fault ∧ Objects between fault := by
  obtain ⟨stop, more, hclose, hstop⟩ := close_eq_body_append ts
  have hrest := head_not_isOperator (.inr hstop) more
  have hwhole : Sifts between (stop :: more) (fun _ => AllGenuine between) (whole (close ts)) := by
    rw [whole, hclose]
    refine (h.sifted depthLimit 0 (stop :: more) hrest).bind fun e hgenuine => ?_
    simp only [hstop, if_true]
    exact sifts_ok hgenuine
  rw [tree]
  obtain ⟨e, hok, hgenuine⟩ | ⟨stop, herror, hobjects⟩ := hwhole
  · rw [hok]
    exact .inl ⟨e, rfl, hgenuine⟩
  · rw [herror]
    exact .inr ⟨_, rfl, hobjects⟩

end Abacus.Parse

/-! ### Trees with operators only -/

namespace Abacus

/-- What stands in the place of a binary operator is one, in every node of the tree. -/
def Expr.Genuine (e : Expr) : Prop :=
  ∀ p value l r, .binary p value l r ∈ e.inorder → ∃ op : Operator, value = .operator op

theorem Expr.genuine_binary {p : Int} {value : Datum} {l r : Expr} :
    (binary p value l r).Genuine ↔ (∃ op : Operator, value = .operator op) ∧ l.Genuine ∧ r.Genuine := by
  simp only [Genuine, inorder, List.mem_append, List.mem_cons]
  constructor
  · intro h
    exact ⟨h p value l r (.inr (.inl rfl)), fun _ _ _ _ hn => h _ _ _ _ (.inl hn),
      fun _ _ _ _ hn => h _ _ _ _ (.inr (.inr hn))⟩
  · rintro ⟨hvalue, hl, hr⟩ p' value' l' r' (hn | hn | hn)
    · exact hl _ _ _ _ hn
    · cases hn
      exact hvalue
    · exact hr _ _ _ _ hn

theorem Expr.genuine_unary {p : Int} {op : UnaryOperator} {e : Expr} : (unary p op e).Genuine ↔ e.Genuine := by
  simp [Genuine, inorder]

/-- The tree of tokens has operators only. -/
theorem Parse.Derives.genuine {n : Nonterminal} {w : List Token} {e : Expr} (h : Derives n w e) : e.Genuine := by
  induction h with
  | ofTerm _ ih | ofPrimary _ ih | group _ _ _ ih | plus _ _ ih => exact ih
  | sum _ _ _ _ ihl ihr | product _ _ _ _ ihl ihr => exact Expr.genuine_binary.mpr ⟨⟨_, rfl⟩, ihl, ihr⟩
  | number | identifier => simp [Expr.Genuine, Expr.inorder]
  | minus _ _ ih => exact Expr.genuine_unary.mpr ih

/-- A tree with operators only does not fail for want of an operator. -/
theorem Expr.Genuine.eval_ne_inapplicable {e : Expr} (h : e.Genuine) (hcodable : e.Codable) (value : Datum)
    (p : Int) : e.eval ≠ .error (.inapplicable value p) := by
  induction e with
  | number | identifier => simp [eval]
  | unary q op e ih =>
    cases op with
    | negate => exact fun hfault => ih (genuine_unary.mp h) hcodable (eval_negate_eq_error hfault)
    | other => exact hcodable.elim
  | binary q value' l r ihl ihr =>
    obtain ⟨⟨op, rfl⟩, hl, hr⟩ := genuine_binary.mp h
    intro hfault
    obtain hfault | ⟨a, -, hfault⟩ | ⟨a, b, -, -, ⟨hnone, -⟩ | ⟨op', f, -, -, hfault⟩⟩ := eval_binary_eq_error hfault
    · exact ihl hl hcodable.1 hfault
    · exact ihr hr hcodable.2 hfault
    · cases hnone
    · cases hfault
  | foreign object => exact hcodable.elim

/-- Only a value that denotes no operator is reported as one. -/
theorem Failure.inapplicable_of_ofMachine {fault : Machine.Fault} {err : Error} {shown : String}
    (h : Failure.ofMachine fault = .error err) (hcause : err.cause = .inapplicable shown) :
    ∃ value p, fault = .inapplicable value p := by
  obtain ⟨name, p, -, rfl⟩ | ⟨value, p, _, rfl, -⟩ | ⟨value, p, _, -, rfl⟩ | ⟨object, -, rfl⟩ :=
    Failure.ofMachine_eq_error h
  · cases hcause
  · exact ⟨value, p, rfl⟩
  · cases hcause
  · cases hcause

open Parse in
/-- **Values that pass for operators join nothing.** In a tree that the parser returns, whatever the tokens carry,
every binary node has an operator itself; so the tree has code, and no run of it ends because a value denotes no
operator. If the tokens before the first end of input have the shape of an expression, but one that stands between
operands is no operator, then the parser finds something too deep or reports such a token. -/
theorem lookalikes_join_nothing (ts : List Token) :
    (∀ e, tree ts = .ok e →
      (∀ p value l r, .binary p value l r ∈ e.inorder → ∃ op : Operator, value = .operator op) ∧
      ∃ program, e.code = .ok program ∧
        (∀ halt, Machine.run program = .error halt → ∀ value p, halt.fault ≠ .inapplicable value p) ∧
        ∀ err, Calculation.value program = .error (.error err) → ∀ shown, err.cause ≠ .inapplicable shown) ∧
    ∀ between, Shaped .expression (body ts) between → (∃ t ∈ between, Counterfeit t) →
      ∃ t, tree ts = .error ⟨.tooDeep, t⟩ ∨
        (tree ts = .error ⟨.noOperator, t⟩ ∧ t ∈ between ∧ Counterfeit t) := by
  constructor
  · intro e he
    have hderives := tree_sound he
    have hgenuine := hderives.genuine
    have hcodable : e.Codable := (hderives.nodes (P := fun _ => True) fun _ _ => trivial).codable
    have hrun := run_of_delivers (delivers_emit hcodable [])
    refine ⟨hgenuine, e.emit.code, hcodable.code_eq, fun halt hhalt value p hfault => ?_,
      fun err herr shown hcause => ?_⟩
    · rw [hhalt, Except.mapError_error, hfault] at hrun
      exact hgenuine.eval_ne_inapplicable hcodable value p hrun.symm
    · rw [value_emit hcodable] at herr
      cases hv : e.eval with
      | ok v =>
        rw [hv] at herr
        cases herr
      | error fault =>
        rw [hv, Except.mapError_error, Except.error.injEq] at herr
        obtain ⟨value, p, rfl⟩ := Failure.inapplicable_of_ofMachine herr hcause
        exact hgenuine.eval_ne_inapplicable hcodable value p hv
  · rintro between hshaped ⟨t, ht, hfalse⟩
    obtain ⟨e, -, hall⟩ | ⟨⟨cause, u⟩, htree, rfl | ⟨rfl, hmem, hfault⟩⟩ := tree_of_shaped hshaped
    · exact absurd hfalse (hall t ht)
    · exact ⟨u, .inl htree⟩
    · exact ⟨u, .inr ⟨htree, hmem, hfault⟩⟩

/-- The tokens of `+2+3`, each plus sign given by the code of an addition. -/
def codedSum : List Token :=
  [.ofLexeme (.operator (.number (.int 16))) 0, .ofLexeme (.number (.int 2)) 1,
    .ofLexeme (.operator (.number (.int 16))) 2, .ofLexeme (.number (.int 3)) 3]

open Parse in
/-- The code of an addition is a plus sign before `2`, and joins nothing between `2` and `3`. -/
theorem lookalikes_join_nothing_code_of_addition :
    Shaped .expression (body codedSum) [.ofLexeme (.operator (.number (.int 16))) 2] ∧
      ∃ t, tree codedSum = .error ⟨.tooDeep, t⟩ ∨ (tree codedSum = .error ⟨.noOperator, t⟩ ∧
        t ∈ [Token.ofLexeme (.operator (.number (.int 16))) 2] ∧ Counterfeit t) := by
  have hbody : body codedSum = codedSum := by decide +kernel
  have hsigned : Shaped .operand (codedSum.take 2) [] := .sign (.inl ⟨_, rfl, by decide⟩) (.number rfl)
  have htail : Shaped .tail (codedSum.drop 2) [.ofLexeme (.operator (.number (.int 16))) 2] :=
    .cons rfl (.number rfl) .nil
  have hshaped : Shaped .expression (body codedSum) [.ofLexeme (.operator (.number (.int 16))) 2] := by
    rw [hbody]
    exact hsigned.expression htail
  exact ⟨hshaped, (lookalikes_join_nothing _).2 _ hshaped ⟨_, List.mem_singleton_self _, rfl, rfl⟩⟩

end Abacus
