import Abacus.Proofs.Calculating
import Abacus.Proofs.Relocation

/-!
# Calculations in parts

Two source texts in parentheses with an operator between them are a source text. What comes
of it can be told from what comes of its parts: the operator is applied to their values, and
where a part has an error, the whole has the same error, as much further on as the part
stands in it. Nothing leaks out of a part: no token runs over its end, no operator outside
takes something from inside, and what the stack held before a part is there behind it.
-/

namespace Abacus

open Calculation

/-! ### Texts put together -/

namespace Scan

/-- A text that is read further on has the same tokens, further on. -/
theorem Scans.relocate {n : Nat} {cs : List Char} {ts : List Token} (h : Scans n cs ts) (k : Nat) :
    Scans (n + k) cs (ts.map (Token.relocate (· + k))) := by
  induction h with
  | @stop n =>
    rw [show ((Token.ofLexeme .endOfInput n :: []).map (Token.relocate (· + (k : Int)))) =
      [.ofLexeme .endOfInput ((n + k : Nat) : Int)] from rfl]
    exact .stop
  | @blank n c cs ts hb _ ih =>
    refine .blank hb ?_
    rw [Nat.add_right_comm]
    exact ih
  | @lexeme n c w rest l ts hw hbound _ ih =>
    refine .lexeme hw hbound ?_
    rw [Nat.add_right_comm]
    exact ih

theorem Scans.ne_nil {n : Nat} {cs : List Char} {ts : List Token} (h : Scans n cs ts) : ts ≠ [] := by
  induction h with
  | stop | lexeme => simp
  | blank _ _ ih => exact ih

theorem Writes.not_isEnd {w : List Char} {l : Lexeme} (h : Writes w l) (p : Int) :
    (Token.ofLexeme l p).isEnd = false := by
  cases h with
  | openParen | closeParen | symbol | number => rfl
  | word =>
    rw [Lexeme.ofName]
    split <;> rfl

/-- The tokens of a text are closed by one end of input, behind all others. -/
theorem Scans.eq_concat {n : Nat} {cs : List Char} {ts : List Token} (h : Scans n cs ts) :
    ts = ts.dropLast ++ [.ofLexeme .endOfInput ((n + cs.length : Nat) : Int)] ∧
      ∀ t ∈ ts.dropLast, t.isEnd = false := by
  induction h with
  | stop => simp
  | @blank n c cs ts _ _ ih =>
    rw [List.length_cons, ← Nat.add_assoc, Nat.add_right_comm]
    exact ih
  | @lexeme n c w rest l ts hw _ hscans ih =>
    rw [List.dropLast_cons_of_ne_nil hscans.ne_nil, List.length_append, ← Nat.add_assoc, List.cons_append]
    exact ⟨congrArg _ ih.1, List.forall_mem_cons.mpr ⟨hw.not_isEnd n, ih.2⟩⟩

/-- No letter or digit at the end of the first text meets one at the start of the second. -/
def Apart (cs ds : List Char) : Prop :=
  ∀ c ∈ cs.getLast?, ∀ d ∈ ds.head?, Lexeme.continuesName c = false ∨ Lexeme.continuesName d = false

theorem Apart.of_append {bs cs ds : List Char} (h : Apart (bs ++ cs) ds) : Apart cs ds := by
  intro c hc
  exact h c (by rw [List.getLast?_append, Option.mem_def.mp hc]; rfl)

/-- A row of letters and digits is followed by neither. -/
theorem Apart.head {cs ds : List Char} (h : Apart cs ds) (hne : cs ≠ [])
    (hcs : ∀ c ∈ cs, Lexeme.continuesName c = true) : ∀ d ∈ ds.head?, Lexeme.continuesName d = false := by
  intro d hd
  obtain hc | hd := h _ (List.getLast?_eq_some_getLast hne) d hd
  · rw [hcs _ (List.getLast_mem hne)] at hc
    cases hc
  · exact hd

/-- A lexeme is not carried on by a text that is apart from it. -/
theorem Writes.bounds {c : Char} {w ds : List Char} {l : Lexeme} (h : Writes (c :: w) l)
    (hapart : Apart (c :: w) ds) : Bounds c ds := by
  cases h with
  | openParen | closeParen => exact bounds_of_not_continuesName rfl ds
  | symbol hs => exact bounds_symbol hs ds
  | number hd =>
    have hhead := hapart.head (List.cons_ne_nil c w) fun d hmem => (continuesName_iff d).mpr (.inr (hd d hmem))
    refine (bounds_digit (hd c (List.mem_cons_self ..))).mpr fun d hmem => ?_
    rw [Bool.eq_false_iff]
    intro hdigit
    have := hhead d hmem
    rw [(continuesName_iff d).mpr (.inr hdigit)] at this
    cases this
  | word hc hw =>
    refine (bounds_word hc).mpr (hapart.head (List.cons_ne_nil c w) (List.forall_mem_cons.mpr ⟨?_, hw⟩))
    exact (continuesName_iff c).mpr (.inl hc)

/-- The tokens of two texts that are put together are those of the one, without its end, and
those of the other. -/
theorem Scans.append {n : Nat} {cs ds : List Char} {ts us : List Token} (h : Scans n cs ts)
    (hds : Scans (n + cs.length) ds us) (hapart : Apart cs ds) : Scans n (cs ++ ds) (ts.dropLast ++ us) := by
  induction h with
  | stop => exact hds
  | @blank n c cs ts hb _ ih =>
    rw [List.length_cons, ← Nat.add_assoc, Nat.add_right_comm] at hds
    exact .blank hb (ih hds (show Apart ([c] ++ cs) ds from hapart).of_append)
  | @lexeme n c w rest l ts hw hbound hscans ih =>
    rw [List.length_append, ← Nat.add_assoc] at hds
    rw [List.dropLast_cons_of_ne_nil hscans.ne_nil, List.append_assoc]
    refine .lexeme hw ?_ (ih hds hapart.of_append)
    cases rest with
    | nil => exact hw.bounds (by simpa using hapart)
    | cons d rest => exact hbound

theorem apart_of_head {d : Char} (h : Lexeme.continuesName d = false) (cs ds : List Char) : Apart cs (d :: ds) := by
  rintro c _ _ ⟨⟩
  exact .inr h

theorem apart_of_last {c : Char} (h : Lexeme.continuesName c = false) (cs ds : List Char) :
    Apart (cs ++ [c]) ds := by
  intro c' hc' d _
  rw [List.getLast?_concat] at hc'
  cases hc'
  exact .inl h

/-- The text `cs`, at the offset `n`, gives the tokens `w` whatever text follows it, as long as
that is apart from it. -/
def Gives (n : Nat) (cs : List Char) (w : List Token) : Prop :=
  ∀ ds us, Scans (n + cs.length) ds us → Apart cs ds → Scans n (cs ++ ds) (w ++ us)

theorem Scans.gives {n : Nat} {cs : List Char} {ts : List Token} (h : Scans n cs ts) : Gives n cs ts.dropLast :=
  fun _ _ hds hapart => h.append hds hapart

theorem Writes.gives {c : Char} {w : List Char} {l : Lexeme} (h : Writes (c :: w) l) (n : Nat) :
    Gives n (c :: w) [.ofLexeme l n] :=
  fun _ _ hds hapart => .lexeme h (h.bounds hapart) hds

theorem Gives.append {n : Nat} {cs ds : List Char} {v w : List Token} (hcs : Gives n cs v)
    (hds : Gives (n + cs.length) ds w) (hne : ds ≠ []) (hapart : Apart cs ds) : Gives n (cs ++ ds) (v ++ w) := by
  intro es us hes hapart'
  rw [List.length_append, ← Nat.add_assoc] at hes
  rw [List.append_assoc, List.append_assoc]
  refine hcs _ _ (hds es us hes hapart'.of_append) ?_
  obtain ⟨d, ds, rfl⟩ := List.exists_cons_of_ne_nil hne
  exact hapart

theorem Gives.scans {n : Nat} {cs : List Char} {w : List Token} (h : Gives n cs w) :
    Scans n cs (w ++ [.ofLexeme .endOfInput ((n + cs.length : Nat) : Int)]) := by
  have := h [] _ .stop (fun _ _ => nofun)
  rwa [List.append_nil] at this

end Scan

/-- The spellings of the binary operators. -/
def Lexeme.spellings : List (String × Operator) :=
  [("+", .add), ("-", .subtract), ("*", .multiply), ("/", .divide), ("%", .modulo), ("mod", .modulo), ("div", .divide)]

theorem Scan.writes_spelling {w : String} {op : Operator} (h : (w, op) ∈ Lexeme.spellings) :
    ∃ c v, w.toList = c :: v ∧ Writes (c :: v) (.operator (.operator op)) := by
  simp only [Lexeme.spellings, List.mem_cons, Prod.mk.injEq, List.not_mem_nil, or_false] at h
  obtain ⟨rfl, rfl⟩ | ⟨rfl, rfl⟩ | ⟨rfl, rfl⟩ | ⟨rfl, rfl⟩ | ⟨rfl, rfl⟩ | ⟨rfl, rfl⟩ | ⟨rfl, rfl⟩ := h
  · exact ⟨'+', [], rfl, .symbol rfl⟩
  · exact ⟨'-', [], rfl, .symbol rfl⟩
  · exact ⟨'*', [], rfl, .symbol rfl⟩
  · exact ⟨'/', [], rfl, .symbol rfl⟩
  · exact ⟨'%', [], rfl, .symbol rfl⟩
  · exact ⟨'m', ['o', 'd'], rfl, .word rfl (List.all_eq_true.mp rfl)⟩
  · exact ⟨'d', ['i', 'v'], rfl, .word rfl (List.all_eq_true.mp rfl)⟩

/-- Two texts in parentheses with a third one between them. -/
def grouped (s₁ w s₂ : String) : String := "(" ++ s₁ ++ ")" ++ w ++ "(" ++ s₂ ++ ")"

/-! ### Trees put together -/

namespace Parse

/-- Two operands with an operator between them. -/
theorem Derives.binary {v w : List Token} {t : Token} {op : Operator} {l r : Expr} (hv : Derives .primary v l)
    (ht : Carries t op) (hw : Derives .primary w r) :
    Derives .expr (v ++ t :: w) (.binary t.position (.operator op) l r) := by
  by_cases hrank : op.rank = 0
  · exact .ofTerm (.product (.ofPrimary hv) ht hrank hw)
  · have hsum : op = .add ∨ op = .subtract := by
      have := rank_lt_two op
      exact (rank_eq_one_iff op).mp (by omega)
    exact .sum (.ofTerm (.ofPrimary hv)) ht hsum (.ofPrimary hw)

/-- All tokens of a text but the last stand before the end of input. -/
theorem body_of_scans {n : Nat} {cs : List Char} {ts : List Token} (h : Scan.Scans n cs ts) :
    body ts = ts.dropLast := by
  obtain ⟨hts, hbody⟩ := h.eq_concat
  have hclose : close ts = ts.dropLast ++ [.ofLexeme .endOfInput ((n + cs.length : Nat) : Int)] := by
    rw [← hts, close, hts]
    simp [Token.isEnd, Token.ofLexeme]
  exact body_eq_of_close hclose hbody rfl

/-- A text in parentheses is an operand, wherever it stands. -/
theorem derives_group {cs : List Char} {ts : List Token} {e : Expr} (h : Scan.Scans 0 cs ts)
    (he : Derives .expr (body ts) e) (n : Nat) :
    ∃ g, Scan.Gives n ('(' :: (cs ++ [')'])) g ∧ Derives .primary g (e.relocate (· + (n + 1))) := by
  have hinside : Scan.Gives (n + 1) cs (ts.map (Token.relocate (· + ((n + 1 : Nat) : Int)))).dropLast := by
    have := (h.relocate (n + 1)).gives
    rwa [Nat.zero_add] at this
  have hclosed := hinside.append (Scan.Writes.closeParen.gives _) (by simp) (Scan.apart_of_head rfl cs [])
  have hgroup := (Scan.Writes.openParen.gives n).append hclosed (by simp) (Scan.apart_of_last rfl [] _)
  refine ⟨_, hgroup, .group rfl ?_ rfl⟩
  rw [body_of_scans h] at he
  rw [← List.map_dropLast]
  exact he.relocate (· + (n + 1))

/-- Two texts in parentheses with an operator between them: the tokens make up the tree of the
operator and the two trees, each as far on as its text. -/
theorem derives_groups {s₁ s₂ w : String} {op : Operator} {ts₁ ts₂ : List Token} {e₁ e₂ : Expr}
    (hts₁ : Scan.tokens s₁ = .ok ts₁) (he₁ : Derives .expr (body ts₁) e₁) (hts₂ : Scan.tokens s₂ = .ok ts₂)
    (he₂ : Derives .expr (body ts₂) e₂) (hw : (w, op) ∈ Lexeme.spellings) :
    ∃ ts, Scan.tokens (grouped s₁ w s₂) = .ok ts ∧
      Derives .expr (body ts) (.binary (s₁.length + 2) (.operator op) (e₁.relocate (· + 1))
        (e₂.relocate (· + (s₁.length + w.length + 3)))) := by
  obtain ⟨c, v, hcv, hwrites⟩ := Scan.writes_spelling hw
  obtain ⟨g₁, hg₁, hd₁⟩ := derives_group (Scan.tokens_eq_ok_iff.mp hts₁) he₁ 0
  obtain ⟨g₂, hg₂, hd₂⟩ := derives_group (Scan.tokens_eq_ok_iff.mp hts₂) he₂ (s₁.length + 2 + (c :: v).length)
  have hlength : 0 + ('(' :: (s₁.toList ++ [')'])).length = s₁.length + 2 := by
    simp [String.length_toList]
  have hright : Scan.Gives (0 + ('(' :: (s₁.toList ++ [')'])).length) (c :: v ++ '(' :: (s₂.toList ++ [')']))
      (.ofLexeme (.operator (.operator op)) ((s₁.length + 2 : Nat) : Int) :: g₂) := by
    rw [hlength]
    exact (hwrites.gives (s₁.length + 2)).append hg₂ (by simp) (Scan.apart_of_head rfl _ _)
  have hwhole := (hg₁.append hright (by simp) (Scan.apart_of_last rfl ('(' :: s₁.toList) _)).scans
  have htext : (grouped s₁ w s₂).toList =
      '(' :: (s₁.toList ++ [')']) ++ (c :: v ++ '(' :: (s₂.toList ++ [')'])) := by
    simp [grouped, String.toList_append, hcv]
  rw [← htext] at hwhole
  refine ⟨_, Scan.tokens_eq_ok_iff.mpr hwhole, ?_⟩
  rw [body_of_scans hwhole, List.dropLast_concat]
  have hshift : ((s₁.length + 2 + (c :: v).length : Nat) : Int) + 1 = s₁.length + w.length + 3 := by
    rw [← hcv, String.length_toList]
    omega
  rw [hshift] at hd₂
  exact hd₁.binary (t := .ofLexeme (.operator (.operator op)) ((s₁.length + 2 : Nat) : Int)) rfl hd₂

end Parse

/-! ### Calculations put together -/

/-- The outcome of a tree that has moved is that of the tree, moved in the same way. -/
theorem eval_relocate_mapError (f : Int → Int) (e : Expr) :
    (e.relocate f).eval.mapError Failure.ofMachine = (e.eval.mapError Failure.ofMachine).mapError (Failure.relocate f) := by
  rw [Expr.eval_relocate]
  cases e.eval with
  | ok v => rfl
  | error fault => simp only [Except.mapError_error, Failure.ofMachine_relocate]

theorem eval_binary_mapError (p : Int) (op : Operator) (l r : Expr) :
    (Expr.binary p (.operator op) l r).eval.mapError Failure.ofMachine = (do
      let a ← l.eval.mapError Failure.ofMachine
      let b ← r.eval.mapError Failure.ofMachine
      (op.apply a b).mapError fun fault => .ofMachine (.arithmetic fault (.operator op) p)) := by
  rw [Expr.eval]
  cases l.eval with
  | error fault => rfl
  | ok a =>
    cases r.eval with
    | error fault => rfl
    | ok b =>
      simp only [Except.mapError_ok, Except.ok_bind, Datum.denoted?]
      cases op.apply a b <;> rfl

section Groups

variable {s₁ s₂ w : String} {op : Operator} {ts₁ ts₂ : List Token} {e₁ e₂ : Expr}

/-- The outcome of two texts in parentheses with an operator between them, from the outcomes of
the two texts. -/
theorem outcome_of_groups (hts₁ : Scan.tokens s₁ = .ok ts₁) (he₁ : Parse.tree ts₁ = .ok e₁)
    (hts₂ : Scan.tokens s₂ = .ok ts₂) (he₂ : Parse.tree ts₂ = .ok e₂) (hw : (w, op) ∈ Lexeme.spellings) :
    (∃ t, outcome (grouped s₁ w s₂) = .error (.error (.ofParse ⟨.tooDeep, t⟩))) ∨
      outcome (grouped s₁ w s₂) = (do
        let a ← (outcome s₁).mapError (Failure.relocate (· + 1))
        let b ← (outcome s₂).mapError (Failure.relocate (· + (s₁.length + w.length + 3)))
        (op.apply a b).mapError fun fault => .ofMachine (.arithmetic fault (.operator op) (s₁.length + 2))) := by
  obtain ⟨ts, hts, hderives⟩ := Parse.derives_groups hts₁ (Parse.tree_sound he₁) hts₂ (Parse.tree_sound he₂) hw
  obtain htree | ⟨t, htree⟩ := Parse.tree_complete hderives
  · right
    rw [outcome_of_tree hts htree, outcome_of_tree hts₁ he₁, outcome_of_tree hts₂ he₂, eval_binary_mapError,
      eval_relocate_mapError, eval_relocate_mapError]
  · exact .inl ⟨t, outcome_of_fault hts htree⟩

/-- **What comes of a calculation in two parts.** Let two source texts have trees, and put them in
parentheses with a spelling of a binary operator between them. The calculation of the whole
reports that it is too deep, or else: if the texts have values, then it yields what the operator
makes of them, reports at the operator that this is too large, or fails as the operator does; if
the first text has an error, it reports that error at its place in the whole; and so it does with
an error of the second text, if the first one has a value. -/
theorem calculation_of_groups (o : Options) (hts₁ : Scan.tokens s₁ = .ok ts₁) (he₁ : Parse.tree ts₁ = .ok e₁)
    (hts₂ : Scan.tokens s₂ = .ok ts₂) (he₂ : Parse.tree ts₂ = .ok e₂) (hw : (w, op) ∈ Lexeme.spellings) :
    (∃ place, Reports o (grouped s₁ w s₂) (.tooDeep Parse.depthLimit) place) ∨
    (∀ o₁ o₂ v₁ v₂, Yields o₁ s₁ v₁ → Yields o₂ s₂ v₂ →
      match op.apply v₁ v₂ with
      | .ok v => Yields o (grouped s₁ w s₂) v
      | .error .tooLarge =>
        Reports o (grouped s₁ w s₂) (.resultTooLarge op.label) (some (.ofOffset (s₁.length + 2)))
      | .error .outOfDomain => (calculate o (grouped s₁ w s₂)).result = .error .outOfDomain
      | .error .floorOfNan => (calculate o (grouped s₁ w s₂)).result = .error .floorOfNan) ∧
    (∀ o₁ cause place, Reports o₁ s₁ cause place →
      Reports o (grouped s₁ w s₂) cause (place.map (Place.relocate (· + 1)))) ∧
    (∀ o₁ o₂ v₁ cause place, Yields o₁ s₁ v₁ → Reports o₂ s₂ cause place →
      Reports o (grouped s₁ w s₂) cause (place.map (Place.relocate (· + (s₁.length + w.length + 3))))) := by
  obtain ⟨t, hdeep⟩ | hout := outcome_of_groups hts₁ he₁ hts₂ he₂ hw
  · exact .inl ⟨_, reports_iff.mpr ⟨_, hdeep, rfl, rfl⟩⟩
  refine .inr ⟨fun o₁ o₂ v₁ v₂ h₁ h₂ => ?_, fun o₁ cause place h₁ => ?_, fun o₁ o₂ v₁ cause place h₁ h₂ => ?_⟩
  · rw [yields_iff.mp h₁, yields_iff.mp h₂] at hout
    simp only [Except.mapError_ok, Except.ok_bind] at hout
    cases hv : op.apply v₁ v₂ with
    | ok v =>
      rw [hv] at hout
      exact yields_iff.mpr hout
    | error fault =>
      rw [hv] at hout
      cases fault with
      | tooLarge => exact reports_iff.mpr ⟨_, hout, rfl, rfl⟩
      | outOfDomain | floorOfNan => exact result_calculate_eq_error.mpr ⟨hout, by simp⟩
  · obtain ⟨e, he, rfl, rfl⟩ := reports_iff.mp h₁
    rw [he] at hout
    exact reports_iff.mpr ⟨_, hout, rfl, rfl⟩
  · obtain ⟨e, he, rfl, rfl⟩ := reports_iff.mp h₂
    rw [yields_iff.mp h₁, he] at hout
    exact reports_iff.mpr ⟨_, hout, rfl, rfl⟩

end Groups

/-- In `(2-3)mod(x)` the name is found at the offset 9. -/
theorem calculation_of_groups_unknown_name :
    Yields .standard "2-3" (.int (-1)) ∧ Reports .standard "x" (.unknownName "x") (some (.ofOffset 0)) ∧
      Reports .standard (grouped "2-3" "mod" "x") (.unknownName "x") (some (.ofOffset 9)) := by
  have hts₁ : Scan.tokens "2-3" = .ok [.ofLexeme (.number (.int 2)) 0, .ofLexeme (.operator (.operator .subtract)) 1,
      .ofLexeme (.number (.int 3)) 2, .ofLexeme .endOfInput 3] := by decide +kernel
  have he₁ : Parse.tree [.ofLexeme (.number (.int 2)) 0, .ofLexeme (.operator (.operator .subtract)) 1,
      .ofLexeme (.number (.int 3)) 2, .ofLexeme .endOfInput 3] =
        .ok (.binary 1 (.operator .subtract) (.number 0 (.int 2)) (.number 2 (.int 3))) := by decide +kernel
  have hts₂ : Scan.tokens "x" = .ok [.ofLexeme (.identifier "x") 0, .ofLexeme .endOfInput 1] := by decide +kernel
  have he₂ : Parse.tree [.ofLexeme (.identifier "x") 0, .ofLexeme .endOfInput 1] = .ok (.identifier 0 "x") := by
    decide +kernel
  have hv₁ : Yields .standard "2-3" (.int (-1)) := yields_iff.mpr (outcome_of_tree hts₁ he₁)
  have hv₂ : Reports .standard "x" (.unknownName "x") (some (.ofOffset 0)) :=
    reports_iff.mpr ⟨_, outcome_of_tree hts₂ he₂, rfl, rfl⟩
  refine ⟨hv₁, hv₂, ?_⟩
  obtain ⟨place, hdeep⟩ | ⟨-, -, h⟩ :=
    calculation_of_groups .standard hts₁ he₁ hts₂ he₂ (show ("mod", .modulo) ∈ Lexeme.spellings by decide)
  · obtain ⟨e, he, hcause, -⟩ := reports_iff.mp hdeep
    have hout : outcome (grouped "2-3" "mod" "x") = .error (.error (.unknownName "x" (some 9))) := by decide +kernel
    rw [hout] at he
    cases he
    cases hcause
  · exact h _ _ _ _ _ hv₁ hv₂

end Abacus
