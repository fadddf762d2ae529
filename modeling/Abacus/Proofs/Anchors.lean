import Abacus.Proofs.FirstFault
import Abacus.Proofs.Names
import Abacus.Proofs.Results
import Abacus.Proofs.SourceErrors

/-!
# Where errors point

An error of a source text points at a character of it, or at its end. The position comes from
whoever finds the error: the scan has an offset, the parser has a token, and the machine has the
position that an instruction was given. This module leads all of them back to the text. The token at
which the parser stops is one of those that it was given. A node that cannot be evaluated shows a
token. And where a token starts, there is a character that is not blank.
-/

namespace Abacus

/-! ### The token at which the parser stops -/

namespace Parse

/-- The parser stops at a token of the closed list. -/
theorem token_of_tree {ts : List Token} {fault : Fault} (hgenuine : ∀ t ∈ ts, ¬ Counterfeit t)
    (h : tree ts = .error fault) : fault.token ∈ close ts := by
  rw [tree] at h
  split at h
  · cases h
  rename_i stop hwhole
  cases h
  rcases traced_of_whole hwhole with hmisfit | ⟨hmem, -⟩
  · obtain ⟨before, after, -, hts, -⟩ := whole_halts (readable_close hgenuine) hwhole hmisfit
    rw [hts]
    exact List.mem_append_right _ (List.mem_cons_self ..)
  · exact hmem

/-- A list of tokens with one end of input behind it is closed. -/
theorem close_of_scans {n : Nat} {cs : List Char} {ts : List Token} (h : Scan.Scans n cs ts) : close ts = ts := by
  have hlast : ts.getLast? = some (.ofLexeme .endOfInput ((n + cs.length : Nat) : Int)) := by
    rw [h.eq_concat.1, List.getLast?_concat]
  rw [close, hlast]
  rfl

/-- Every node of a tree shows one of the tokens. -/
theorem Derives.exists_shows {n : Nonterminal} {w : List Token} {e m : Expr} (h : Derives n w e)
    (hm : m ∈ e.inorder) : ∃ o, Shows m o ∧ o.token ∈ w := by
  obtain ⟨i, hi, rfl⟩ := List.getElem_of_mem hm
  have hi' : i < (kept w).length := h.shows.length_eq ▸ hi
  exact ⟨_, h.shows.get hi hi', (map_token_kept_sublist w).mem (List.mem_map_of_mem (List.getElem_mem hi'))⟩

end Parse

/-! ### The node that cannot be evaluated -/

/-- `Raises m fault`: the node `m` is what the fault is about. -/
inductive Expr.Raises : Expr → Machine.Fault → Prop where
  /-- A name. -/
  | name {p : Int} {name : String} : Raises (.identifier p name) (.unknownName name p)
  /-- An operator, at the values of its operands. -/
  | operator {p : Int} {d : Datum} {l r : Expr} {f : Number.Fault} : Raises (.binary p d l r) (.arithmetic f d p)

theorem Expr.Written.exists_raises {e : Expr} {fault : Machine.Fault} (hw : e.Written) (h : e.eval = .error fault) :
    ∃ m ∈ e.inorder, m.Raises fault := by
  induction e with
  | number => cases h
  | identifier p name =>
    cases h
    exact ⟨_, List.mem_singleton_self _, .name⟩
  | unary p op e ih =>
    cases op with
    | other value => exact hw.elim
    | negate =>
      obtain ⟨m, hm, hraises⟩ := ih hw (eval_negate_eq_error h)
      exact ⟨m, List.mem_cons_of_mem _ hm, hraises⟩
  | binary p d l r ihl ihr =>
    obtain ⟨⟨op, rfl, -⟩, hwl, hwr⟩ := hw
    obtain h | ⟨a, -, h⟩ | ⟨a, b, -, -, h⟩ := eval_binary_eq_error h
    · obtain ⟨m, hm, hraises⟩ := ihl hwl h
      exact ⟨m, List.mem_append_left _ hm, hraises⟩
    · obtain ⟨m, hm, hraises⟩ := ihr hwr h
      exact ⟨m, List.mem_append_right _ (List.mem_cons_of_mem _ hm), hraises⟩
    · obtain ⟨h, -⟩ | ⟨op', f, -, -, rfl⟩ := h
      · cases h
      · exact ⟨_, List.mem_append_right _ (List.mem_cons_self ..), .operator⟩
  | foreign object => exact hw.elim

/-- What stops the evaluation of a source text stands at one of its tokens: a name, or an operator with
too large a result. -/
theorem exists_token_of_eval_fault {source : String} {ts : List Token} {e : Expr} {fault : Machine.Fault} {err : Error}
    (hts : Scan.tokens source = .ok ts) (he : Parse.tree ts = .ok e) (hv : e.eval = .error fault)
    (herr : Failure.ofMachine fault = .error err) :
    ∃ t ∈ ts, t.isEnd = false ∧ err.position = some (.ofOffset t.position) ∧
      ((∃ name, t.lexeme = .identifier name ∧ err.cause = .unknownName name) ∨
        ∃ op : Operator, t.lexeme = .operator (.operator op) ∧ err.cause = .resultTooLarge op.label) := by
  obtain ⟨m, hm, hraises⟩ := (written_of_tree hts he).exists_raises hv
  obtain ⟨⟨t, due⟩, hshows, hbody⟩ := (Parse.tree_sound he).exists_shows hm
  have ht : t ∈ ts := Parse.mem_of_mem_body hbody
  have hend : t.isEnd = false := by simpa using List.mem_takeWhile_imp hbody
  refine ⟨t, ht, hend, ?_⟩
  cases hraises with
  | @name p name =>
    cases hshows with
    | identifier hl =>
      cases herr
      exact ⟨rfl, .inl ⟨name, hl, rfl⟩⟩
  | @operator p d l r f =>
    cases hshows with
    | operator hl =>
      have hw := (Scan.tokens_eq_ok_iff.mp hts).written t ht
      rw [hl] at hw
      obtain ⟨op, rfl, -⟩ := hw
      cases f with
      | tooLarge =>
        cases herr
        exact ⟨rfl, .inr ⟨op, hl, rfl⟩⟩
      | outOfDomain | floorOfNan => cases herr

/-! ### Characters -/

/-- What stands at an offset that an error points at. -/
inductive Pointed (source : String) (i : Nat) (c : Char) : Cause → Prop where
  /-- The character that is wrong. -/
  | stray : Pointed source i c (.strayCharacter (String.singleton c))
  /-- The first digit of a number that is too long to be a token. -/
  | longNumber : Scan.OversizedAt source.toList i → Pointed source i c .longNumber
  /-- The first character of a token. -/
  | token {ts : List Token} {t : Token} {cause : Cause} : Scan.tokens source = .ok ts → t ∈ ts → t.isEnd = false →
      t.position = i → Pointed source i c cause

/-- `Anchored source cause place`: an error with the cause can point at the place. It is the end of the
text, or the offset of a character of it that is not blank. -/
def Anchored (source : String) (cause : Cause) (place : Place) : Prop :=
  (place.atEnd = true ∧ place.offset = source.length) ∨
    (place.atEnd = false ∧ ∃ (i : Nat) (c : Char), place.offset = i ∧ source.toList[i]? = some c ∧
      Text.isBlank c = false ∧ Pointed source i c cause)

/-- A token is the end of the text, or starts with a character that is not blank. -/
theorem anchored_of_token {source : String} {ts : List Token} {t : Token} (hts : Scan.tokens source = .ok ts)
    (ht : t ∈ ts) (cause : Cause) : Anchored source cause ⟨t.position, t.isEnd⟩ := by
  have hscans := Scan.tokens_eq_ok_iff.mp hts
  obtain ⟨hconcat, hbody⟩ := hscans.eq_concat
  have hcases := ht
  rw [hconcat, List.mem_append, List.mem_singleton] at hcases
  rcases hcases with hmem | rfl
  · obtain ⟨spans, hspans, hpart⟩ := hscans.partition (s := source.toList) rfl
    have hend := hbody t hmem
    rw [hspans] at hmem
    obtain ⟨a, ha, rfl⟩ := List.mem_map.mp hmem
    have hlt : a.start < source.toList.length := Nat.lt_of_lt_of_le a.start_lt_stop (hpart.inside a ha).2
    have hc := List.getElem?_eq_getElem hlt
    refine .inr ⟨hend, a.start, _, rfl, hc, ?_, .token hts ht hend rfl⟩
    exact (hpart.covered _ _ (Nat.zero_le _) hc).mp ⟨a, ha, Nat.le_refl _, a.start_lt_stop⟩
  · refine .inl ⟨rfl, ?_⟩
    rw [Nat.zero_add, String.length_toList]
    rfl

theorem anchored_of_scan_fault {source : String} {fault : Scan.Fault} (h : Scan.tokens source = .error fault) :
    ∃ place, (Error.ofScan (some source) fault).position = some place ∧
      Anchored source (Error.ofScan (some source) fault).cause place := by
  obtain ⟨hoccurs, -⟩ := Scan.tokens_eq_error_iff.mp h
  obtain ⟨cause, i⟩ := fault
  refine ⟨_, rfl, .inr ⟨rfl, i, ?_⟩⟩
  cases cause with
  | strayCharacter c =>
    obtain ⟨hc, hblank, -⟩ := hoccurs
    exact ⟨c, rfl, hc, hblank, .stray⟩
  | longNumber =>
    obtain ⟨c, hc, hname⟩ := hoccurs.1.1
    exact ⟨c, rfl, hc, Scan.isBlank_of_continuesName hname, .longNumber hoccurs⟩

/-- The errors of a calculation are anchored, whoever finds them. -/
theorem Ends.anchored {o : Options} {source : String} {r : Calculation.Result} {e : Error} (h : Ends o source r)
    (he : r.error? = some e) : ∃ place, e.position = some place ∧ Anchored source e.cause place := by
  have hshown : ∀ err, (shown o source err).position = err.position := by
    intro err
    unfold shown
    split <;> rfl
  cases h with
  | scanning hts =>
    cases he
    rw [hshown, shown_cause]
    exact anchored_of_scan_fault hts
  | @parsing ts fault hts hfault =>
    cases he
    rw [hshown, shown_cause]
    have ht : fault.token ∈ ts := by
      rw [← Parse.close_of_scans (Scan.tokens_eq_ok_iff.mp hts)]
      exact Parse.token_of_tree (fun t => not_counterfeit hts) hfault
    exact ⟨_, rfl, anchored_of_token hts ht _⟩
  | running hts htree hv herr =>
    cases he
    rw [hshown, shown_cause]
    obtain ⟨t, ht, hend, hposition, -⟩ := exists_token_of_eval_fault hts htree hv herr
    refine ⟨_, hposition, ?_⟩
    have hanchored := anchored_of_token hts ht
    rw [hend] at hanchored
    exact hanchored _
  | value => cases he

end Abacus
