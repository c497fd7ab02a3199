import Louiselm.Session.Recording

/-!
# Retried transactions

Inserting into the tables of `Session/Recording` is retried without harm: a fact that is there
already changes nothing, another one under its key is refused, and a transaction that was run
can be run again at the head of a longer one.
-/

namespace Louiselm.Session
open Base List
open Except (ok.inj)

/-! ### Rows -/

namespace Table

theorem nodup_columns (table : Table) : table.columns.Nodup := by
  cases table <;> decide

theorem checked_mem (table : Table) : table.checked ∈ table.columns := by
  cases table <;> decide

theorem checked_not_nullable (table : Table) : table.nullable.contains table.checked = false := by
  cases table <;> decide

/-- The rows have the same cells in all columns. -/
def Alike (table : Table) (stored row : List Cell) : Prop :=
  ∀ column ∈ table.columns, table.cell column stored = table.cell column row

variable {table : Table} {row : List Cell}

/-- Rows of one length are the same where their cells are. -/
theorem Alike.eq {o : List Cell} (h : table.Alike row o) (hr : row.length = table.columns.length)
    (ho : o.length = table.columns.length) : row = o := by
  refine ext_getElem (hr.trans ho.symm) ?_
  intro i hi hj
  have hl : i < table.columns.length := hr ▸ hi
  have hd : table.columns.idxOf table.columns[i] = i := table.nodup_columns.idxOf_getElem i hl
  have hc := h table.columns[i] (getElem_mem hl)
  rw [cell, cell, hd, List.getElem?_eq_getElem hi, List.getElem?_eq_getElem hj] at hc
  exact hc

/-- A retry of a row that is there writes nothing new. -/
theorem retried_of_alike {s : List Cell} (h : table.Alike s row)
    (hn : table.cell table.checked row ≠ .null) : table.retried s row = s := by
  have ha : (table.columns.all fun c => table.cell c s == table.cell c row) =
      true := by
    rw [all_eq_true]
    intro c ho
    exact beq_iff_eq.mpr (h c ho)
  have hs : table.cell table.checked s = table.cell table.checked row :=
    h _ table.checked_mem
  rw [retried, if_pos ha, ← hs]
  rw [← hs] at hn
  unfold cell at hn ⊢
  cases hc : s[table.columns.idxOf table.checked]? with
  | none => simp [hc] at hn
  | some f =>
    obtain ⟨hl, hf⟩ := List.getElem?_eq_some_iff.mp hc
    rw [Option.getD_some, ← hf, set_getElem_self]

/-- A retry of another row leaves null in a column that must not be. -/
theorem retried_not_alike {s : List Cell} (h : ¬ table.Alike s row) :
    table.notNull (table.retried s row) = false := by
  have ha : ¬ (table.columns.all fun c =>
      table.cell c s == table.cell c row) = true := by
    intro ha
    rw [all_eq_true] at ha
    exact h fun c hc => beq_iff_eq.mp (ha c hc)
  have he : table.cell table.checked (table.retried s row) = .null := by
    rw [retried, if_neg ha, cell]
    cases hg : (s.set (table.columns.idxOf table.checked) Cell.null)[
        table.columns.idxOf table.checked]? with
    | none => rfl
    | some f =>
      obtain ⟨hl, hf⟩ := List.getElem?_eq_some_iff.mp hg
      rw [getElem_set_self] at hf
      exact hf.symm
  refine Bool.eq_false_iff.mpr fun hn => ?_
  have hh := all_eq_true.mp hn _ table.checked_mem
  rw [table.checked_not_nullable, he] at hh
  cases hh

/-- What a row must be before its key is looked at. -/
structure Valid (table : Table) (row : List Cell) : Prop where
  typed : table.typed row = true
  notNull : table.notNull row = true
  inLimits : table.inLimits row = true

theorem Valid.length (h : table.Valid row) : row.length = table.columns.length := by
  have ht := h.typed
  rw [Table.typed, Bool.and_eq_true, beq_iff_eq] at ht
  exact ht.1

theorem Valid.checked (h : table.Valid row) : table.cell table.checked row ≠ .null := by
  have hc := all_eq_true.mp h.notNull _ table.checked_mem
  rw [table.checked_not_nullable, Bool.false_or, bne_iff_ne] at hc
  exact hc

end Table

/-! ### Inserting -/

namespace Database

@[simp] theorem withRows_self (db : Database) (table : Table) :
    db.withRows table (db.facts table) = db := by
  have hf : (fun o => if o = table then db.facts table else db.facts o) =
      db.facts := by
    funext o
    split
    · rename_i heq
      rw [heq]
    · rfl
  rw [withRows, hf]

/-- The place of the row with the key of another one. -/
def place (db : Database) (table : Table) (row : List Cell) : Option Nat :=
  (db.facts table).findIdx? fun stored => table.keyOf stored == table.keyOf row

/-- A row is in its table under its key. -/
def Stored (db : Database) (table : Table) (row : List Cell) : Prop :=
  ∃ index stored, db.place table row = some index ∧ (db.facts table)[index]? = some stored ∧
    table.Alike stored row

variable {db n : Database} {t : Table} {row : List Cell}

/-- What inserting a row comes to: it was there already, or it is appended. -/
theorem insert_ok (h : db.insert t row = .ok n) : t.Valid row ∧ ((db.Stored t row ∧ n = db) ∨
      (db.place t row = none ∧ n = db.withRows t (db.facts t ++ [row]))) := by
  unfold insert at h
  obtain ⟨ht, h⟩ := check_ok.mp h
  obtain ⟨hn, h⟩ := check_ok.mp h
  obtain ⟨hl, h⟩ := check_ok.mp h
  rw [require_ok] at ht hn hl
  have hv : t.Valid row := ⟨ht, hn, hl⟩
  refine ⟨hv, ?_⟩
  dsimp only at h
  split at h
  · rename_i index hi
    obtain ⟨hw, h⟩ := check_ok.mp h
    obtain rfl := ok.inj h
    rw [require_ok] at hw
    have hlt : index < (db.facts t).length := (List.findIdx?_eq_some_iff_getElem.mp hi).1
    have hg : (db.facts t)[index]? = some (db.facts t)[index] :=
      List.getElem?_eq_getElem hlt
    rw [hg, Option.getD_some] at hw ⊢
    have ha : t.Alike (db.facts t)[index] row := by
      by_contra ho
      rw [Table.retried_not_alike ho] at hw
      cases hw
    refine Or.inl ⟨⟨index, _, hi, hg, ha⟩, ?_⟩
    rw [Table.retried_of_alike ha hv.checked, set_getElem_self, withRows_self]
  · rename_i hi
    obtain ⟨-, h⟩ := check_ok.mp h
    obtain ⟨-, h⟩ := check_ok.mp h
    exact Or.inr ⟨hi, (ok.inj h).symm⟩

/-- An identical fact changes nothing. -/
theorem insert_stored (hv : t.Valid row) (h : db.Stored t row) : db.insert t row = .ok db := by
  obtain ⟨i, s, hi, hg, ha⟩ := h
  have hr : t.retried s row = s :=
    Table.retried_of_alike ha hv.checked
  obtain ⟨hl, ht⟩ := List.getElem?_eq_some_iff.mp hg
  have hs : (db.facts t).set i s = db.facts t := by
    rw [← ht, set_getElem_self]
  have hn : t.notNull s = true := by
    refine all_eq_true.mpr fun c hc => ?_
    rw [ha c hc]
    exact all_eq_true.mp hv.notNull c hc
  unfold place at hi
  simp only [insert, hv.typed, hv.notNull, hv.inLimits, require, if_true, ok_bind, hi,
    hg, Option.getD_some, hr, hn, hs, withRows_self]
  rfl

@[simp] theorem withRows_same (db : Database) (t : Table) (r : List (List Cell)) :
    (db.withRows t r).facts t = r := if_pos rfl

theorem withRows_ne {o : Table} (h : o ≠ t) (r : List (List Cell)) :
    (db.withRows t r).facts o = db.facts o := if_neg h

/-- What is inserted is stored. -/
theorem insert_stores (h : db.insert t row = .ok n) : n.Stored t row := by
  obtain ⟨-, ⟨hs, rfl⟩ | ⟨hn, rfl⟩⟩ := insert_ok h
  · exact hs
  · refine ⟨(db.facts t).length, row, ?_, ?_, fun _ _ => rfl⟩
    · rw [place] at hn ⊢
      rw [withRows_same, List.findIdx?_append, hn]
      simp
    · rw [withRows_same]
      simp

/-- What is stored stays. -/
theorem Stored.insert {o : Table} {new : List Cell} (h : db.Stored t row)
    (hi : db.insert o new = .ok n) : n.Stored t row := by
  obtain ⟨-, ⟨-, rfl⟩ | ⟨-, rfl⟩⟩ := insert_ok hi
  · exact h
  · obtain ⟨i, s, hd, hg, ha⟩ := h
    by_cases ht : t = o
    · subst ht
      refine ⟨i, s, ?_, ?_, ha⟩
      · rw [place] at hd ⊢
        rw [withRows_same, List.findIdx?_append, hd]
        rfl
      · obtain ⟨hl, -⟩ := List.getElem?_eq_some_iff.mp hg
        rw [withRows_same, List.getElem?_append_left hl]
        exact hg
    · refine ⟨i, s, ?_, ?_, ha⟩
      · rw [place] at hd ⊢
        rw [withRows_ne ht]
        exact hd
      · rw [withRows_ne ht]
        exact hg

/-- Another row under the key of one that is stored is refused. -/
theorem insert_conflict {o : List Cell} (hv : t.Valid row) (h : db.Stored t row) (he : o ≠ row)
    (hk : t.keyOf o = t.keyOf row) : ∃ error, db.insert t o = .error error := by
  cases hi : db.insert t o with
  | error error => exact ⟨error, rfl⟩
  | ok n =>
    exfalso
    obtain ⟨i, s, hd, hg, ha⟩ := h
    have hp : db.place t o = some i := by
      rw [place, hk]
      exact hd
    obtain ⟨ho, ⟨hs, -⟩ | ⟨hn, -⟩⟩ := insert_ok hi
    · obtain ⟨i', s', hi', hg', ha'⟩ := hs
      obtain rfl := Option.some.inj (hp.symm.trans hi')
      obtain rfl := Option.some.inj (hg.symm.trans hg')
      refine he (Table.Alike.eq ?_ ho.length hv.length)
      intro c hc
      rw [← ha' c hc, ha c hc]
    · rw [hp] at hn
      cases hn

/-! ### Transactions -/

theorem exec_ok {s : Statement} (h : db.exec s = .ok n) :
    n.preferences = setPreference db.preferences s := by
  cases s with
  | nothing =>
    obtain rfl := ok.inj h
    rfl
  | fact t row =>
    obtain ⟨-, ⟨-, rfl⟩ | ⟨-, rfl⟩⟩ := insert_ok h
    · rfl
    · rfl
  | preference a asi preference =>
    obtain rfl := ok.inj h
    rfl

theorem transact_append (db : Database) (l r : List Statement) :
    db.transact (l ++ r) = db.transact l >>= fun n => n.transact r := by
  rw [transact, foldlM_append]
  rfl

theorem transact_cons (db : Database) (s : Statement) (xs : List Statement) :
    db.transact (s :: xs) = db.exec s >>= fun n => n.transact xs := by
  rw [transact, foldlM_cons]
  rfl

variable {st : List Statement}

theorem transact_preferences (h : db.transact st = .ok n) :
    n.preferences = st.foldl setPreference db.preferences := by
  induction st generalizing db with
  | nil =>
    obtain rfl := ok.inj h
    rfl
  | cons s xs ih =>
    rw [transact_cons, bind_ok] at h
    obtain ⟨m, he, hr⟩ := h
    rw [ih hr, exec_ok he, foldl_cons]

theorem Stored.exec {s : Statement} (h : db.Stored t row)
    (he : db.exec s = .ok n) : n.Stored t row := by
  cases s with
  | nothing =>
    obtain rfl := ok.inj he
    exact h
  | fact o new => exact h.insert he
  | preference a asi preference =>
    obtain rfl := ok.inj he
    exact h

theorem Stored.transact (h : db.Stored t row) (ht : db.transact st = .ok n) :
    n.Stored t row := by
  induction st generalizing db with
  | nil =>
    obtain rfl := ok.inj ht
    exact h
  | cons s xs ih =>
    rw [transact_cons, bind_ok] at ht
    obtain ⟨m, he, hr⟩ := ht
    exact ih (h.exec he) hr

/-- The facts of a transaction are valid, and stored once it is done. -/
theorem transact_stores (h : db.transact st = .ok n)
    (hm : .fact t row ∈ st) : t.Valid row ∧ n.Stored t row := by
  induction st generalizing db with
  | nil => cases hm
  | cons s xs ih =>
    rw [transact_cons, bind_ok] at h
    obtain ⟨m, he, hr⟩ := h
    rcases mem_cons.mp hm with heq | hm
    · subst heq
      exact ⟨(insert_ok he).1, (insert_stores he).transact hr⟩
    · exact ih hr hm

/-- Facts that are stored already leave a transaction nothing to do but the preferences. -/
theorem transact_of_stored (h : ∀ t row, .fact t row ∈ st → t.Valid row ∧ db.Stored t row) :
    db.transact st = .ok { db with preferences := st.foldl setPreference db.preferences } := by
  induction st generalizing db with
  | nil => rfl
  | cons s xs ih =>
    have he : db.exec s = .ok { db with preferences := setPreference db.preferences s } := by
      cases s with
      | nothing => rfl
      | fact t row =>
        obtain ⟨hv, hs⟩ := h t row mem_cons_self
        exact insert_stored hv hs
      | preference a asi preference => rfl
    rw [transact_cons, he, ok_bind, ih]
    · rfl
    · intro t row hm
      exact h t row (mem_cons_of_mem _ hm)

/-- The last preference that a transaction sets for a Session, if it sets one. -/
def lastPreference (agent acpSessionId : String) : List Statement → Option String
  | [] => none
  | statement :: rest =>
    (lastPreference agent acpSessionId rest).or
      (setPreference (fun _ _ => none) statement agent acpSessionId)

theorem setPreference_eq (p : String → String → Option String) (s : Statement)
    (a asi : String) : setPreference p s a asi = (setPreference (fun _ _ => none) s a asi).or
        (p a asi) := by
  cases s with
  | nothing => rfl
  | fact t row => rfl
  | preference oa os preference =>
    simp only [setPreference]
    split <;> rfl

theorem foldl_setPreference (st : List Statement) (p : String → String → Option String)
    (a asi : String) : st.foldl setPreference p a asi = (lastPreference a asi st).or (p a asi) := by
  induction st generalizing p with
  | nil => rfl
  | cons s xs ih =>
    rw [foldl_cons, ih, setPreference_eq, lastPreference, Option.or_assoc]

/-- A transaction that was run changes nothing when it is run again. -/
theorem transact_again (h : db.transact st = .ok n) : n.transact st = .ok n := by
  rw [transact_of_stored fun t row hm => transact_stores h hm]
  have hp : st.foldl setPreference n.preferences = n.preferences := by
    rw [transact_preferences h]
    funext agent acpSessionId
    rw [foldl_setPreference, foldl_setPreference]
    cases lastPreference agent acpSessionId st <;> rfl
  rw [hp]

/-- A transaction with a fact that conflicts with a stored one is refused as a whole. -/
theorem transact_conflict {o : List Cell} (hv : t.Valid row) (h : db.Stored t row)
    (hn : o ≠ row) (hk : t.keyOf o = t.keyOf row)
    (hm : .fact t o ∈ st) : ∃ error, db.transact st = .error error := by
  cases ht : db.transact st with
  | error error => exact ⟨error, rfl⟩
  | ok n =>
    exfalso
    obtain ⟨pre, l, rfl⟩ := append_of_mem hm
    rw [transact_append, bind_ok] at ht
    obtain ⟨m, hb, ha⟩ := ht
    rw [transact_cons, bind_ok] at ha
    obtain ⟨la, he, -⟩ := ha
    obtain ⟨error, hr⟩ := insert_conflict hv (h.transact hb) hn hk
    rw [exec, hr] at he
    cases he

end Database

end Louiselm.Session
