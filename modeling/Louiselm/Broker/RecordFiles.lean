import Louiselm.Base.Keeps
import Louiselm.Broker.Authorizations

/-!
# Record files as operations

The record files of `broker.rs` as operations of a program: `read_record` and
`write_new_record` in one directory of a larger store. A new file is there before its bytes
are, so an interrupted write leaves a file that no reader accepts.
-/

namespace Louiselm.Broker
open Base List Option Except
open Base.Program (query observe write fail)
open Broker.Authorization (Stored Records readRecord)
open Program

/-! ### Directories that only grow -/

deriving instance DecidableEq for Stored

/-- Every file is still there. -/
def Grows {α : Type} (before after : Records α) : Prop :=
  ∀ name stored, before.lookup name = some stored → after.lookup name = some stored

theorem Grows.refl {α : Type} (f : Records α) : Grows f f := fun _ _ h => h

theorem Grows.trans {α : Type} {f os l : Records α} (h : Grows f os)
    (hl : Grows os l) : Grows f l := fun name st hs =>
  hl name st (h name st hs)

variable {name : String}

theorem Grows.lookup_eq_none {α : Type} {f os : Records α} (h : Grows f os)
    (hn : os.lookup name = none) : f.lookup name = none := by
  cases hl : f.lookup name with
  | none => rfl
  | some st =>
    rw [h name st hl] at hn
    simp at hn

/-- What is read of a record is read of it in whatever the directory grows to. -/
theorem Grows.readRecord {α : Type} {b : α → Nat} {f os : Records α} {re : α} (h : Grows f os)
    (hr : Authorization.readRecord b f name = .ok (some re)) :
    Authorization.readRecord b os name = .ok (some re) := by
  unfold Authorization.readRecord at hr ⊢
  cases hl : f.lookup name with
  | none => simp [hl] at hr
  | some st =>
    rw [hl] at hr
    rw [h name st hl]
    exact hr

theorem grows_append {α : Type} (f os : Records α) : Grows f (f ++ os) := by
  intro name st h
  rw [lookup_append, h]
  rfl

theorem lookup_append_new {α : Type} {f : Records α} {st : Stored α}
    (h : f.lookup name = none) : (f ++ [(name, st)]).lookup name = some st := by
  rw [lookup_append, h, lookup_cons, beq_self_eq_true]
  rfl

theorem mem_of_lookup {α : Type} {f : Records α} {st : Stored α}
    (h : f.lookup name = some st) : (name, st) ∈ f := by
  obtain ⟨pre, l, rfl, -⟩ := lookup_eq_some_iff.mp h
  exact mem_append_right _ mem_cons_self

/-- What is read of some files and one more is one of them or the other one. -/
theorem of_lookup_append {α : Type} {f : Records α} {o : String} {st y : Stored α}
    (h : (f ++ [(name, st)]).lookup o = some y) : f.lookup o = some y ∨
      f.lookup o = none ∧ o = name ∧ y = st := by
  rw [lookup_append] at h
  cases hl : f.lookup o with
  | some held =>
    rw [hl] at h
    exact .inl h
  | none =>
    rw [hl, none_or, lookup_cons] at h
    by_cases hn : o = name
    · rw [beq_iff_eq.mpr hn] at h
      exact .inr ⟨rfl, hn, (some.inj h).symm⟩
    · rw [beq_false_of_ne hn] at h
      simp at h

/-! ### Directories of a store -/

/-- One directory of a store, and the errors its operations end with. -/
structure Directory (σ ε α : Type) where
  files : σ → Records α
  put : Records α → σ → σ
  bytes : α → Nat
  lift : BrokerError → ε
  files_put : ∀ records s, files (put records s) = records
  put_put : ∀ records others s, put records (put others s) = put records s

namespace Directory

/-- Read a file under its name. -/
def readNamed {α : Type} (bytes : α → Nat) (item : String × Stored α) :
    Except BrokerError (String × α) := do
  let record ← item.2.read bytes
  return (item.1, record)

variable {σ ε α : Type} (dir : Directory σ ε α)

/-- Read one bounded record. -/
def read (name : String) : Program σ ε (Option α) :=
  query (fun s => (readRecord dir.bytes (dir.files s) name).mapError dir.lift) (dir.lift .storage)

/-- The records of the directory, each with its name. -/
def scan : Program σ ε (List (String × α)) :=
  query (fun s => ((dir.files s).mapM (readNamed dir.bytes)).mapError dir.lift) (dir.lift .storage)

/-- Write one durable record that must not already exist. -/
def create (name : String) (record : α) : Program σ ε Unit := do
  let before ← query (fun s =>
    if ((dir.files s).lookup name).isSome then .error (dir.lift .duplicateAuthorization)
    else .ok (dir.files s)) (dir.lift .storage)
  write (dir.put (before ++ [(name, .torn)])) (dir.lift .storage)
  write (dir.put (before ++ [(name, .whole record)])) (dir.lift .storage)

/-- What an interrupted creation leaves: nothing, a torn file, or the whole record. -/
inductive Interrupted (name : String) (record : α) (s : σ) : σ → Prop where
  | nothing : Interrupted name record s s
  | torn (habsent : (dir.files s).lookup name = none) :
      Interrupted name record s (dir.put (dir.files s ++ [(name, .torn)]) s)
  | whole (habsent : (dir.files s).lookup name = none) :
      Interrupted name record s (dir.put (dir.files s ++ [(name, .whole record)]) s)

variable {dir} {name : String} {r : α} {s : σ}

theorem stored_read_ok {b : α → Nat} {st : Stored α} (h : st.read b = .ok r) : st = .whole r := by
  cases st with
  | torn => simp [Stored.read] at h
  | whole held =>
    simp only [Stored.read] at h
    split at h
    · rw [ok.inj h]
    · simp at h

theorem wp_read {p : Post σ ε (Option α)} (hn : (dir.files s).lookup name = none → p.value none s)
    (hs : ∀ r, (dir.files s).lookup name = some (.whole r) → p.value (some r) s)
    (he : ∀ error, p.error error s) (hc : p.crashed s) : Wp (dir.read name) p s := by
  refine wp_query (fun f hf => ?_) (fun _ _ => he _) (he _) hc
  have hf := mapError_ok.mp hf
  unfold readRecord at hf
  split at hf
  · next hl =>
    obtain rfl := ok.inj hf
    exact hn hl
  · next st hl =>
    cases hr : st.read dir.bytes with
    | ok r =>
      rw [hr] at hf
      obtain rfl := ok.inj hf
      exact hs r (hl.trans (congrArg some (stored_read_ok hr)))
    | error error =>
      rw [hr] at hf
      simp [Except.map] at hf

/-- A directory that can be read through has no torn file. -/
theorem read_reads : Reads (dir.read name) s fun f =>
    (dir.files s).lookup name = f.map .whole :=
  wp_read (fun hn => ⟨rfl, hn⟩) (fun _ hr => ⟨rfl, hr⟩) (fun _ => rfl) rfl

theorem wp_scan {p : Post σ ε (List (String × α))}
    (hv : ∀ rs, dir.files s = rs.map (fun x => (x.1, Stored.whole x.2)) → p.value rs s)
      (he : ∀ e, p.error e s) (hc : p.crashed s) : Wp dir.scan p s := by
  refine wp_query (fun rs hr => hv rs ?_) (fun _ _ => he _) (he _) hc
  have ha := mapM_ok.mp (mapError_ok.mp hr)
  clear hv hr
  generalize dir.files s = files at ha
  induction ha with
  | nil => rfl
  | cons hi _ ih =>
    obtain ⟨held, hh, hs⟩ := bind_ok.mp hi
    obtain rfl := ok.inj hs
    rw [map_cons, ← ih, ← stored_read_ok hh]

/-- A creation that is confirmed made a record where none was. -/
theorem wp_create {p : Post σ ε Unit} (hv : (dir.files s).lookup name = none →
      p.value () (dir.put (dir.files s ++ [(name, .whole r)]) s))
    (he : ∀ e s', dir.Interrupted name r s s' → p.error e s')
    (hc : ∀ s', dir.Interrupted name r s s' → p.crashed s') : Wp (dir.create name r) p s := by
  refine wp_bind (wp_query (fun pre hb => ?_)
    (fun _ _ => he _ _ .nothing) (he _ _ .nothing) (hc _ .nothing))
  split at hb
  · simp at hb
  · next ha =>
    obtain rfl := ok.inj hb
    have ha := not_isSome_iff_eq_none.mp ha
    have hn : Wp (write (dir.put (dir.files s ++ [(name, .whole r)]))
        (dir.lift .storage)) p (dir.put (dir.files s ++ [(name, .torn)]) s) := by
      refine wp_write ?_ (he _ _ (.torn ha)) ?_ (hc _ (.torn ha))
      · rw [dir.put_put]
        exact hv ha
      · rw [dir.put_put]
        exact he _ _ (.whole ha)
    exact wp_bind (wp_write hn (he _ _ .nothing) (he _ _ (.torn ha)) (hc _ .nothing))

theorem finishes_read : Finishes (dir.read name) := finishes_query _ _

theorem finishes_create : Finishes (dir.create name r) :=
  (finishes_query _ _).bind fun _ =>
    (finishes_write _ _).bind fun _ => finishes_write _ _

/-- Without faults a record is made exactly where none is. -/
theorem returns_create_iff {u : Unit} {l : σ} :
    (dir.create name r).Returns s u l ↔ (dir.files s).lookup name = none ∧
      dir.put (dir.files s ++ [(name, .whole r)]) s = l := by
  have hw : ∀ pre, Returns (do
      write (dir.put (pre ++ [(name, .torn)])) (dir.lift .storage)
      write (dir.put (pre ++ [(name, .whole r)])) (dir.lift .storage)) s u l ↔
        dir.put (pre ++ [(name, .whole r)]) s = l := by
    intro pre
    rw [(calm_write _ _).returns_bind]
    simp only [returns_write_iff, exists_const]
    constructor
    · rintro ⟨_, rfl, rfl⟩
      exact (dir.put_put _ _ _).symm
    · rintro rfl
      exact ⟨_, rfl, dir.put_put _ _ _⟩
  rw [create, returns_query_bind]
  simp only [hw]
  split
  · next hp =>
    obtain ⟨st, hs⟩ := isSome_iff_exists.mp hp
    simp [hs]
  · next ha => simp [not_isSome_iff_eq_none.mp ha]

/-- A creation keeps an invariant that both what it may leave keep. -/
theorem create_keeps {g : Guard σ} (h : g.invariant s)
    (hl : ∀ st, (dir.files s).lookup name = none → st = .torn ∨ st = .whole r →
      g.invariant (dir.put (dir.files s ++ [(name, st)]) s) ∧
        g.moves s (dir.put (dir.files s ++ [(name, st)]) s)) :
    g.Keeps (dir.create name r) s fun _ s' => (dir.files s).lookup name = none ∧
      s' = dir.put (dir.files s ++ [(name, .whole r)]) s := by
  have hint : ∀ s', dir.Interrupted name r s s' → g.invariant s' ∧ g.moves s s' := by
    intro s' hs'
    cases hs' with
    | nothing => exact ⟨h, g.refl s⟩
    | torn ha => exact hl .torn ha (.inl rfl)
    | whole ha => exact hl (.whole r) ha (.inr rfl)
  refine wp_create (fun ha => ⟨hint _ (.whole ha), ha, rfl⟩) ?_ hint
  exact fun _ => hint

end Directory
end Louiselm.Broker
