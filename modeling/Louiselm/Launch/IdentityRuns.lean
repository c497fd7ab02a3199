import Louiselm.Base.Runs
import Louiselm.Launch.Identity

/-!
# One lease at a time

`skills-core/src/launcher_install/identity.rs`: over every order of the operations of any number of
open file descriptions, a slot has one live lease, and its next ordinary one comes only after a
release has truncated the lock file. A slot that is not free has a file that no loss empties.
-/

namespace Louiselm.Launch
open Base List IdentitySlot Option Function

/-! ### What is to hold -/

/-- The last lease of a log is that of a description. -/
def LastLease (log : List Mark) (description : Nat) : Prop :=
  ∃ before after, log = before ++ .leased description :: after ∧ ∀ other, .leased other ∉ after

/-- The slot was never leased, or a release has truncated the file of its last lease. -/
def Reusable (log : List Mark) : Prop :=
  (∀ description, .leased description ∉ log) ∨
    ∃ description before after, log = before ++ .leased description :: after ∧
      (∀ other, .leased other ∉ after) ∧ .truncated description ∈ after

/-- A byte of a marker was written, which no release has truncated and no stop may have lost. -/
def Marked (log : List Mark) : Prop :=
  ∃ before after, log = before ++ .wrote :: after ∧ .lost ∉ after ∧
    ∀ description, .truncated description ∉ after

namespace IdentitySlot

/-- No two leases are live. -/
def Exclusive (slot : IdentitySlot) : Prop :=
  ∀ description other phase phase', slot.phases description = some phase →
    slot.phases other = some phase' → phase.live = true → phase'.live = true → description = other

/-- An ordinary acquisition passes its check, and succeeds, only where the slot may be reused. -/
def Reuses (slot : IdentitySlot) (event : SlotEvent) : Prop :=
  ∀ description remaining, (slot.phases description = some (.locked false) →
      (slot.step event).phases description = some (.marking false remaining) →
        Reusable slot.log ∧ ¬ Marked slot.log) ∧
    (slot.phases description = some (.marking false remaining) →
      (slot.step event).phases description = some .leased → Reusable slot.log)

end IdentitySlot

/-! ### Logs -/

variable {log : List Mark} {mark : Mark}

theorem Reusable.append (h : Reusable log) (hm : ∀ description, mark ≠ .leased description) :
    Reusable (log ++ [mark]) := by
  rcases h with hn | ⟨description, pre, l, rfl, hl, ht⟩
  · left
    intro description he
    rcases mem_append.mp he with hold | hw
    · exact hn description hold
    · exact hm description (mem_singleton.mp hw).symm
  · right
    refine ⟨description, pre, l ++ [mark], by simp, fun o he => ?_, mem_append_left _ ht⟩
    rcases mem_append.mp he with hold | hw
    · exact hl o hold
    · exact hm o (mem_singleton.mp hw).symm

theorem lastLease_append (log : List Mark) (description : Nat) :
    LastLease (log ++ [.leased description]) description :=
  ⟨log, [], rfl, fun _ => not_mem_nil⟩

/-- The release of the last lease has truncated its file. -/
theorem LastLease.truncated {description : Nat} (h : LastLease log description) :
    Reusable (log ++ [.truncated description]) := by
  obtain ⟨pre, l, rfl, hl⟩ := h
  right
  refine ⟨description, pre, l ++ [.truncated description], by simp, fun o hm => ?_,
    by simp⟩
  rcases mem_append.mp hm with hold | hn
  · exact hl o hold
  · exact absurd (mem_singleton.mp hn) (by simp)

/-- What a log says of markers after one more mark, it says with that mark or said before. -/
theorem marked_append (h : Marked (log ++ [mark])) :
    mark = .wrote ∨ (Marked log ∧ mark ≠ .lost ∧ ∀ description, mark ≠ .truncated description) := by
  obtain ⟨pre, l, heq, hl, ht⟩ := h
  rcases eq_nil_or_concat l with rfl | ⟨e, la, rfl⟩
  · exact Or.inl (append_inj_right' heq rfl |> singleton_inj.mp)
  · right
    rw [concat_eq_append] at heq hl ht
    rw [← cons_append, ← append_assoc] at heq
    obtain ⟨ho, hm⟩ := append_inj' heq rfl
    obtain rfl := singleton_inj.mp hm
    refine ⟨⟨pre, e, ho, ?_, ?_⟩, ?_, ?_⟩
    · exact fun he => hl (mem_append_left _ he)
    · exact fun description he => ht description (mem_append_left _ he)
    · rintro rfl
      exact hl (mem_append_right _ (mem_singleton_self _))
    · rintro description rfl
      exact ht description (mem_append_right _ (mem_singleton_self _))

/-! ### Markers -/

theorem requireUnpoisoned_ok {n : UInt32} {c : Bytes} {u : Unit}
    (h : requireUnpoisoned n c = .ok u) : c = [] := by
  unfold requireUnpoisoned at h
  dsimp only at h
  split at h
  · next hn =>
    rcases take_eq_nil_iff.mp hn with hl | hc
    · exact absurd hl (Nat.succ_ne_zero _)
    · exact hc
  · split at h <;> contradiction

/-- Every change of `mark_active` fills the file. -/
theorem fills_of_mem {c : Change} (h : FileStep.change c ∈ markActive) :
    c.Fills := by
  rw [markActive, cons_append, mem_cons, mem_append] at h
  rcases h with h | h | h
  · contradiction
  · obtain ⟨x, -, heq⟩ := mem_map.mp h
    rw [← FileStep.change.inj heq]
    trivial
  · rw [mem_cons, mem_singleton] at h
    rcases h with h | h
    · rw [FileStep.change.inj h]
      show 0 < poisonMarker.length
      decide
    · contradiction

/-- What is left of `mark_active` after some of it, by which the file is not empty. -/
def Ending (file : SyncedFile) (remaining : List FileStep) : Prop :=
  ∃ done, markActive = done ++ remaining ∧ ((∃ change, .change change ∈ done) → file.content ≠ [])

theorem ending_markActive (f : SyncedFile) : Ending f markActive :=
  ⟨[], rfl, by simp⟩

namespace IdentitySlot

@[simp] theorem file_perform_change (slot : IdentitySlot) (c : Change) (m : List Mark) :
    (slot.perform (.change c) m).file = slot.file.change c := rfl

end IdentitySlot

/-- An operation of `mark_active` leaves less of it. -/
theorem Ending.perform {slot : IdentitySlot} {s : FileStep} {xs : List FileStep}
    (h : Ending slot.file (s :: xs)) (m : List Mark) : Ending (slot.perform s m).file xs := by
  obtain ⟨d, ha, hc⟩ := h
  refine ⟨d ++ [s], by rw [ha, append_assoc, singleton_append], ?_⟩
  rintro ⟨change, hh⟩
  have hold : FileStep.change change ∈ d → slot.file.content ≠ [] :=
    fun hm => hc ⟨change, hm⟩
  cases s with
  | change own =>
    rw [IdentitySlot.file_perform_change, SyncedFile.content_change]
    refine (fills_of_mem ?_).apply_ne_nil _
    rw [ha]
    simp
  | seek => exact hold (by simpa using hh)
  | sync => exact hold (by simpa using hh)

/-- The last operation syncs a file that is not empty. -/
theorem Ending.last {f : SyncedFile} {s : FileStep} (h : Ending f [s]) :
    s = .sync ∧ f.content ≠ [] := by
  obtain ⟨d, ha, hc⟩ := h
  have hs : markActive = (.seek :: poisonMarker.zipIdx.map
      (fun x => FileStep.change (.put x.2 x.1)) ++
        [.change (.resize poisonMarker.length)]) ++ [.sync] := by
    rw [markActive, append_assoc]
    rfl
  obtain ⟨hd, ht⟩ := append_inj' (ha.symm.trans hs) rfl
  refine ⟨singleton_inj.mp ht, hc ⟨.resize poisonMarker.length, ?_⟩⟩
  rw [hd]
  simp

/-! ### What every state keeps -/

/-- What a description in a phase has of the file and the log. -/
def Phase.Fits (file : SyncedFile) (log : List Mark) (description : Nat) : Phase → Prop
  | .marking recovery remaining => Ending file remaining ∧ (recovery = false → Reusable log)
  | .leased => LastLease log description
  | .releasing remaining => (remaining = clearMarker ∧ LastLease log description) ∨
      (remaining <:+ [.seek, .sync] ∧ Reusable log)
  | .remarking remaining => Ending file remaining
  | _ => True

/-- Who is not done holds the lock; a slot that is not free has a file that no loss empties; and
marks stay in the file. -/
structure Kept (slot : IdentitySlot) : Prop where
  exclusive : ∀ description phase, slot.phases description = some phase → phase.holds = true →
    slot.holder = some description
  fits : ∀ description phase, slot.phases description = some phase →
    phase.Fits slot.file slot.log description
  sealed : ¬ Reusable slot.log → slot.file.Sealed
  marked : Marked slot.log → slot.file.content ≠ []

theorem kept_start (n : UInt32) (f : SyncedFile) : Kept (.start n f) where
  exclusive := fun _ _ h => by contradiction
  fits := fun _ _ h => by contradiction
  sealed := fun h => absurd (Or.inl fun _ => not_mem_nil) h
  marked := by
    rintro ⟨pre, l, heq, -⟩
    simp [start] at heq

variable {ph : Phase}

/-- Live leases hold the lock, so there is one. -/
theorem Kept.unique {slot : IdentitySlot} (h : Kept slot) {description o : Nat} {p' : Phase}
    (hp : slot.phases description = some ph) (hp' : slot.phases o = some p')
    (hh : ph.holds = true) (hh' : p'.holds = true) : description = o :=
  some.inj ((h.exclusive _ _ hp hh).symm.trans (h.exclusive _ _ hp' hh'))

/-- Only who holds the lock has anything of the file or the log. -/
theorem Phase.fits_of_not_holds (h : ph.holds ≠ true) (f : SyncedFile) (log : List Mark)
    (description : Nat) : ph.Fits f log description := by
  cases ph <;> trivial

theorem Phase.holds_of_live (h : ph.live = true) : ph.holds = true := by
  cases ph <;> first | rfl | exact h

theorem Kept.live_unique {slot : IdentitySlot} (h : Kept slot) : slot.Exclusive :=
  fun _ _ _ _ hp hp' hl hl' =>
    h.unique hp hp' (Phase.holds_of_live hl) (Phase.holds_of_live hl')

/-! ### Steps -/

open IdentitySlot (marksOf clearsOf)

variable {slot : IdentitySlot} {description : Nat}

/-- The holder of the lock moves on, and the file and the log with it. -/
theorem Kept.move (h : Kept slot) {next : Phase} (hph : slot.phases description = some ph)
    (hh : ph.holds = true) {l : IdentitySlot}
    (hp : l.phases = Function.update slot.phases description (some next))
    (ho : l.holder = slot.holder) (hf : next.Fits l.file l.log description)
    (hs : ¬ Reusable l.log → l.file.Sealed) (hm : Marked l.log → l.file.content ≠ []) : Kept l where
  exclusive := by
    intro o p' hp' hh'
    rw [hp, update_apply] at hp'
    rw [ho]
    split at hp'
    · next heq => rw [heq, h.exclusive _ _ hph hh]
    · exact h.exclusive _ _ hp' hh'
  fits := by
    intro o p' hp'
    rw [hp, update_apply] at hp'
    split at hp'
    · next heq =>
      rw [heq, ← some.inj hp']
      exact hf
    · next hn =>
      refine Phase.fits_of_not_holds (fun hh' => hn ?_) _ _ _
      exact h.unique hp' hph hh' hh
  sealed := hs
  marked := hm

/-- A description passes to a phase that does not hold the lock, or is closed. -/
theorem Kept.leave (h : Kept slot) {ph : Option Phase} (hph : ∀ p ∈ ph, p.holds ≠ true)
    {l : IdentitySlot} (hp : l.phases = Function.update slot.phases description ph)
    (hf : l.file = slot.file) (hl : l.log = slot.log)
    (hh : ∀ o, o ≠ description → slot.holder = some o → l.holder = some o) : Kept l where
  exclusive := by
    intro o p' hp' hh'
    rw [hp, update_apply] at hp'
    split at hp'
    · exact absurd hh' (hph p' hp')
    · next hn => exact hh o hn (h.exclusive _ _ hp' hh')
  fits := by
    intro o p' hp'
    rw [hf, hl]
    rw [hp, update_apply] at hp'
    split at hp'
    · exact Phase.fits_of_not_holds (hph p' hp') _ _ _
    · exact h.fits _ _ hp'
  sealed := by
    rw [hf, hl]
    exact h.sealed
  marked := by
    rw [hf, hl]
    exact h.marked

theorem inherited_not_holds : ∀ p ∈ some Phase.inherited, p.holds ≠ true := by
  intro p hp
  rw [← mem_some_iff.mp hp]
  exact Bool.false_ne_true

/-- Closing keeps what every state keeps, whether or not the description was unlocked first. -/
theorem Kept.close (h : Kept slot) (description : Nat) (u : Bool) :
    Kept ((if u then slot.unlock description else slot).close description) := by
  have ho : ∀ o, o ≠ description → slot.holder = some o →
      (slot.unlock description).holder = some o := by
    intro o hn hh
    rw [unlock, if_neg (by simpa [hh] using hn)]
    exact hh
  cases hs : slot.shared description with
  | true =>
    cases u with
    | true =>
      have hs' : (slot.unlock description).shared description = true := hs
      rw [if_pos rfl, IdentitySlot.close, if_pos hs']
      exact h.leave inherited_not_holds rfl rfl rfl ho
    | false =>
      rw [if_neg Bool.false_ne_true, IdentitySlot.close, if_pos hs]
      exact h.leave inherited_not_holds rfl rfl rfl fun _ _ h => h
  | false =>
    have ht : ¬ slot.shared description = true := by simp [hs]
    cases u with
    | true =>
      have hn' : ¬ (slot.unlock description).shared description = true := ht
      rw [if_pos rfl, IdentitySlot.close, if_neg hn']
      refine h.leave (fun p hp => by contradiction) rfl rfl rfl fun o hn hh => ?_
      show (if (slot.unlock description).holder = some description then none
        else (slot.unlock description).holder) = some o
      rw [ho o hn hh, if_neg (by simpa using hn)]
    | false =>
      rw [if_neg Bool.false_ne_true, IdentitySlot.close, if_neg ht]
      exact h.leave (fun p hp => by contradiction) rfl rfl rfl ho

/-- An operation of `mark_active` keeps a file that no loss empties so, and its bytes stay. -/
theorem Kept.perform (h : Kept slot) {s : FileStep} (ht : s ∈ markActive) :
    (Reusable slot.log → Reusable (slot.perform s (marksOf s)).log) ∧
      (¬ Reusable (slot.perform s (marksOf s)).log → (slot.perform s (marksOf s)).file.Sealed) ∧
      (Marked (slot.perform s (marksOf s)).log →
        (slot.perform s (marksOf s)).file.content ≠ []) := by
  have hl : Reusable slot.log → Reusable (slot.log ++ marksOf s) := by
    intro hr
    cases s with
    | change change =>
      cases change with
      | put o b => exact hr.append fun _ => by simp
      | resize n => simpa [marksOf] using hr
    | _ => simpa [marksOf] using hr
  have hs : ¬ Reusable (slot.log ++ marksOf s) → slot.file.Sealed :=
    fun hn => h.sealed fun hr => hn (hl hr)
  refine ⟨hl, fun hn => ?_, fun hm => ?_⟩
  · cases s with
    | seek => exact hs hn
    | change change => exact (hs hn).change (fills_of_mem ht)
    | sync => exact SyncedFile.sealed_sync (hs hn).content_ne_nil
  · cases s with
    | seek => exact h.marked (by simpa [marksOf, IdentitySlot.perform] using hm)
    | change change =>
      rw [IdentitySlot.file_perform_change, SyncedFile.content_change]
      exact (fills_of_mem ht).apply_ne_nil _
    | sync => exact h.marked (by simpa [marksOf, IdentitySlot.perform] using hm)

theorem Ending.head_mem {f : SyncedFile} {s : FileStep} {xs : List FileStep}
    (h : Ending f (s :: xs)) : s ∈ markActive := by
  obtain ⟨d, ha, -⟩ := h
  rw [ha]
  simp

theorem Kept.advance (h : Kept slot) (description : Nat) (fails : Bool) :
    Kept (slot.advance description fails) := by
  unfold IdentitySlot.advance
  split
  · next recovery step rest hp =>
    obtain ⟨he, ho⟩ := h.fits _ _ hp
    obtain ⟨hg, hs, hm⟩ := h.perform he.head_mem
    split
    · exact h.close description false
    split
    · next hre =>
      subst hre
      obtain ⟨rfl, hc⟩ := he.last
      refine h.move hp rfl rfl rfl (lastLease_append _ _) ?_ ?_
      · exact fun _ => SyncedFile.sealed_sync hc
      · exact fun _ => hc
    · refine h.move hp rfl rfl rfl ⟨he.perform (marksOf step), fun hno => ?_⟩ hs hm
      exact hg (ho hno)
  · next step rest hp =>
    have hf := h.fits _ _ hp
    split
    · exact h.move hp rfl rfl rfl (ending_markActive _) h.sealed h.marked
    · rcases hf with ⟨hcl, hl⟩ | ⟨hu, hr⟩
      · obtain ⟨rfl, rfl⟩ := List.cons.inj hcl
        have hr : Reusable (slot.log ++ [.truncated description]) := hl.truncated
        refine h.move hp rfl rfl rfl ?_ (fun hnot => absurd hr hnot) fun hm => ?_
        · exact Or.inr ⟨suffix_refl _, hr⟩
        · rcases marked_append hm with hw | ⟨-, -, ht⟩
          · contradiction
          · exact absurd rfl (ht description)
      · have hre : rest <:+ [.seek, .sync] := (suffix_cons _ _).trans hu
        have hn : clearsOf description step = [] := by
          have hmem := hu.subset mem_cons_self
          rw [mem_cons, mem_singleton] at hmem
          rcases hmem with rfl | rfl <;> rfl
        have hg : (slot.perform step (clearsOf description step)).log = slot.log := by
          rw [hn]
          exact append_nil _
        refine h.move hp rfl rfl rfl ?_ (fun hnot => absurd ?_ hnot) fun hm => ?_
        · split
          · trivial
          · exact Or.inr ⟨hre, hg ▸ hr⟩
        · exact hg ▸ hr
        · have hold := h.marked (hg ▸ hm)
          have hmem := hu.subset mem_cons_self
          rw [mem_cons, mem_singleton] at hmem
          rcases hmem with rfl | rfl <;> exact hold
  · next hp =>
    split
    · exact h.move hp rfl rfl rfl (ending_markActive _) h.sealed h.marked
    · exact h.close description true
  · next step rest hp =>
    have he : Ending slot.file (step :: rest) := h.fits _ _ hp
    obtain ⟨hg, hs, hm⟩ := h.perform he.head_mem
    split
    · exact h.move hp rfl rfl rfl trivial h.sealed h.marked
    · split
      · exact h.move hp rfl rfl rfl trivial hs hm
      · exact h.move hp rfl rfl rfl (he.perform (marksOf step)) hs hm
  · cases fails with
    | true => exact h.close description false
    | false => exact h.close description true
  · exact h

/-- The content is read. -/
theorem Kept.checked (h : Kept slot) {r : Bool} (hp : slot.phases description = some (.locked r)) :
    Kept (slot.checked description r) := by
  unfold IdentitySlot.checked
  split
  · next ho =>
    refine h.move hp rfl rfl rfl ⟨ending_markActive _, fun _ => ?_⟩ h.sealed h.marked
    by_contra hn
    exact (h.sealed hn).content_ne_nil (requireUnpoisoned_ok ho)
  · split
    · next hr =>
      refine h.move hp rfl rfl rfl ⟨ending_markActive _, fun hno => ?_⟩ h.sealed h.marked
      rw [hr] at hno
      contradiction
    · exact h.close description false
  · exact h.close description false

/-- The lock is taken where nobody holds it. -/
theorem Kept.lock (h : Kept slot) (hh : slot.holder = none) (r : Bool) :
    Kept { slot.become description (some (.locked r)) with holder := some description } where
  exclusive := by
    intro o ph hp hho
    by_cases heq : o = description
    · rw [heq]
    · have hold : slot.phases o = some ph := (update_of_ne heq _ _).symm.trans hp
      have ho := h.exclusive o ph hold hho
      rw [hh] at ho
      contradiction
  fits := by
    intro o ph hp
    by_cases heq : o = description
    · rw [heq] at hp
      have hl : some (Phase.locked r) = some ph :=
        (update_self description _ slot.phases).symm.trans hp
      rw [← some.inj hl]
      trivial
    · exact h.fits o ph ((update_of_ne heq _ _).symm.trans hp)
  sealed := h.sealed
  marked := h.marked

/-- What the machine stopping leaves. -/
theorem Kept.stop (h : Kept slot) {k : List Change} (hk : List.Sublist k slot.file.unsynced) :
    Kept ⟨slot.slot, slot.file.lose k, fun _ => none, none, fun _ => false,
      slot.log ++ [.lost]⟩ where
  exclusive := fun _ _ hp => by contradiction
  fits := fun _ _ hp => by contradiction
  sealed := by
    intro hn
    have hold : ¬ Reusable slot.log := fun hr => hn (hr.append fun _ => by simp)
    exact (h.sealed hold).lose hk
  marked := by
    intro hm
    rcases marked_append hm with hw | ⟨-, hl, -⟩
    · contradiction
    · exact absurd rfl hl

/-- Every event keeps what every state keeps. -/
theorem Kept.step (h : Kept slot) (e : SlotEvent) : Kept (slot.step e) := by
  cases e with
  | openFile description r =>
    rw [IdentitySlot.step]
    split
    · refine h.leave (fun p hp => ?_) rfl rfl rfl fun _ _ h => h
      rw [← mem_some_iff.mp hp]
      exact Bool.false_ne_true
    · exact h
  | tryLock description f =>
    rw [IdentitySlot.step]
    split
    · split
      · exact h.close description false
      · next hf =>
        have hh : slot.holder = none := by
          by_contra ho
          exact hf (Or.inr ho)
        exact h.lock hh _
    · exact h
  | check description f =>
    rw [IdentitySlot.step]
    split
    · next hph =>
      split
      · exact h.close description false
      · exact h.checked hph
    · exact h
  | advance description f => exact h.advance description f
  | release description =>
    rw [IdentitySlot.step]
    split
    · next hph =>
      have hl : LastLease slot.log description := h.fits _ _ hph
      exact h.move hph rfl rfl rfl (Or.inl ⟨rfl, hl⟩) h.sealed h.marked
    · exact h
  | poison description f =>
    rw [IdentitySlot.step]
    split
    · cases f with
      | true => exact h.close description false
      | false => exact h.close description true
    · exact h
  | drop description =>
    rw [IdentitySlot.step]
    split
    · exact h.close description false
    · exact h.close description false
    · exact h
  | fork description =>
    rw [IdentitySlot.step]
    split
    · exact h
    · exact ⟨h.exclusive, h.fits, h.sealed, h.marked⟩
  | exec description =>
    have ha : Kept { slot with shared := Function.update slot.shared description false } :=
      ⟨h.exclusive, h.fits, h.sealed, h.marked⟩
    rw [IdentitySlot.step]
    split
    · exact ha.close description false
    · exact ha
  | exit description =>
    rw [IdentitySlot.step]
    split
    · exact h
    · exact h
    · exact h.close description false
  | stop k =>
    rw [IdentitySlot.step]
    split
    · next hs => exact h.stop (isSublist_iff_sublist.mp hs)
    · exact h

/-! ### Acquisitions -/

namespace IdentitySlot

@[simp] theorem phases_become (slot : IdentitySlot) (o : Nat) (ph : Option Phase) :
    (slot.become o ph).phases description =
      if description = o then ph else slot.phases description :=
  update_apply ..

@[simp] theorem phases_unlock (slot : IdentitySlot) (o : Nat) :
    (slot.unlock o).phases = slot.phases := rfl

theorem phases_close (slot : IdentitySlot) (description o : Nat) :
    (slot.close o).phases description = slot.phases description ∨
      (slot.close o).phases description = none ∨
      (slot.close o).phases description = some .inherited := by
  unfold close
  split
  · rw [phases_become]
    split
    · exact Or.inr (Or.inr rfl)
    · exact Or.inl rfl
  · rw [phases_unlock, phases_become]
    split
    · exact Or.inr (Or.inl rfl)
    · exact Or.inl rfl

end IdentitySlot


/-- Closing does not make a locked description write its marker. -/
theorem IdentitySlot.close_not_marking (hl : slot.phases description = some (.locked false))
    (o : Nat) (r : List FileStep) :
    (slot.close o).phases description ≠ some (.marking false r) := by
  rcases phases_close slot description o with h | h | h
  · rw [h, hl]
    simp
  · rw [h]
    simp
  · rw [h]
    simp

/-- Another description's move does not. -/
theorem IdentitySlot.become_not_marking (hl : slot.phases description = some (.locked false))
    (o : Nat) (hp : ∀ r, ph ≠ .marking false r) (r : List FileStep) :
    (slot.become o (some ph)).phases description ≠ some (.marking false r) := by
  rw [phases_become]
  split
  · exact fun heq => hp r (some.inj heq)
  · rw [hl]
    simp

/-- The next operation of a call is not the check of a locked description. -/
theorem IdentitySlot.advance_not_marking (hl : slot.phases description = some (.locked false))
    (o : Nat) (f : Bool) (r : List FileStep) :
    (slot.advance o f).phases description ≠ some (.marking false r) := by
  by_cases heq : o = description
  · rw [heq, IdentitySlot.advance, hl]
    simp [hl]
  · have ho : ∀ (l : IdentitySlot) ph, l.phases = slot.phases →
        (l.become o ph).phases description ≠ some (.marking false r) := by
      intro l ph ha
      rw [phases_become, if_neg (Ne.symm heq), ha, hl]
      simp
    have hc : ∀ l : IdentitySlot, l.phases = slot.phases →
        (l.close o).phases description ≠ some (.marking false r) := by
      intro l ha
      exact close_not_marking (ha ▸ hl) o r
    unfold IdentitySlot.advance
    split
    · split
      · exact hc slot rfl
      split
      · exact ho _ _ rfl
      · exact ho _ _ rfl
    · split
      · exact ho _ _ rfl
      · exact ho _ _ rfl
    · split
      · exact ho _ _ rfl
      · exact hc _ rfl
    · split
      · exact ho _ _ rfl
      · exact ho _ _ rfl
    · split
      · exact hc _ rfl
      · exact hc _ rfl
    · rw [hl]
      simp

/-- An ordinary acquisition passes its check on an empty file only. -/
theorem IdentitySlot.content_of_marking (hl : slot.phases description = some (.locked false))
    {e : SlotEvent} {r : List FileStep}
    (hm : (slot.step e).phases description = some (.marking false r)) : slot.file.content = [] := by
  have hc := fun o => close_not_marking hl o r
  have hs : slot.phases description ≠ some (.marking false r) := by
    rw [hl]
    simp
  by_contra hco
  refine absurd hm ?_
  cases e with
  | openFile o re =>
    rw [IdentitySlot.step]
    split
    · exact become_not_marking hl o (by simp) r
    · exact hs
  | tryLock o f =>
    rw [IdentitySlot.step]
    split
    · split
      · exact hc o
      · exact become_not_marking hl o (by simp) r
    · exact hs
  | check o f =>
    rw [IdentitySlot.step]
    split
    · split
      · exact hc o
      · next re ho _ =>
        unfold IdentitySlot.checked
        split
        · next hk => exact absurd (requireUnpoisoned_ok hk) hco
        · split
          · next hr =>
            exact become_not_marking hl o (by simp [hr]) r
          · exact hc o
        · exact hc o
    · exact hs
  | advance o f => exact advance_not_marking hl o f r
  | release o =>
    rw [IdentitySlot.step]
    split
    · exact become_not_marking hl o (by simp) r
    · exact hs
  | poison o f =>
    rw [IdentitySlot.step]
    split
    · split
      · exact hc o
      · have hu : (slot.unlock o).phases description = some (.locked false) := hl
        exact close_not_marking hu o r
    · exact hs
  | drop o =>
    rw [IdentitySlot.step]
    split
    · exact hc o
    · exact hc o
    · exact hs
  | fork o =>
    rw [IdentitySlot.step]
    split
    · exact hs
    · exact hs
  | exec o =>
    rw [IdentitySlot.step]
    have ha : ({ slot with shared := Function.update slot.shared o false } :
        IdentitySlot).phases description = some (.locked false) := hl
    split
    · exact close_not_marking ha o r
    · exact hs
  | exit o =>
    rw [IdentitySlot.step]
    split
    · exact hs
    · exact hs
    · exact hc o
  | stop k =>
    rw [IdentitySlot.step]
    split
    · simp
    · exact hs

theorem Kept.reuses (h : Kept slot) (e : SlotEvent) : slot.Reuses e := by
  intro description r
  constructor
  · intro hl hm
    have hc := content_of_marking hl hm
    constructor
    · by_contra hn
      exact (h.sealed hn).content_ne_nil hc
    · exact fun ha => h.marked ha hc
  · intro hm _
    exact (h.fits _ _ hm).2 rfl

/-- Over every run, one lease is live at a time, and an ordinary acquisition is refused where the
slot's last lease was not released by truncating its file, and where a marker may still be. -/
theorem lease_exclusive (number : UInt32) (file : SyncedFile) (events : List SlotEvent) :
    Always IdentitySlot.step Exclusive (.start number file) events ∧
      Throughout IdentitySlot.step Reuses (.start number file) events := by
  have hk : Always IdentitySlot.step Kept (.start number file) events :=
    always_of_throughout (C := fun _ _ => True) (fun _ e h _ => h.step e)
      (kept_start number file) (throughout_of_forall (fun _ _ => trivial) _ events)
  exact ⟨hk.mono fun _ h => h.live_unique, hk.throughout fun _ e h => h.reuses e⟩

/-! ### A marker that a stop loses -/

/-- Nothing was written since the last truncation. -/
def TruncatedLast (log : List Mark) : Prop :=
  (∀ description, .leased description ∉ log) ∨
    ∃ description, (log.filter (· ≠ .lost)).getLast? = some (.truncated description)

theorem not_truncatedLast (description : Nat) (mark : Mark) (hl : .leased description ∈ log)
    (ha : (log.filter (· ≠ .lost)).getLast? = some mark)
    (hm : ∀ o, mark ≠ .truncated o) : ¬ TruncatedLast log := by
  rintro (hn | ⟨o, ht⟩)
  · exact hn description hl
  · exact hm o (some.inj (ha.symm.trans ht))

/-- A lease is released, the next acquisition's write fails after a byte, the machine stops, and
the slot is locked once more. -/
def lostMarkerRun : List SlotEvent :=
  [.openFile 0 false, .tryLock 0 false, .check 0 false] ++
    markActive.map (fun _ => .advance 0 false) ++
    .release 0 :: clearMarker.map (fun _ => .advance 0 false) ++
    [.advance 0 false, .openFile 1 false, .tryLock 1 false, .check 1 false, .advance 1 false,
      .advance 1 false, .advance 1 true, .stop [], .openFile 2 false, .tryLock 2 false]

/-- An ordinary acquisition after it. -/
def lostMarkerAcquisition : List SlotEvent :=
  .check 2 false :: markActive.map (fun _ => .advance 2 false)

/-- Where the machine loses the byte of a failed acquisition, an ordinary one succeeds although
nothing truncated the file after that byte was written. -/
theorem lost_marker_reused :
    let slot := lostMarkerRun.foldl IdentitySlot.step (.start 0 ⟨[], []⟩)
    slot.phases 2 = some (.locked false) ∧ ¬ TruncatedLast slot.log ∧
      (lostMarkerAcquisition.foldl IdentitySlot.step slot).phases 2 = some .leased :=
  ⟨by decide +kernel, not_truncatedLast 0 .wrote (by decide +kernel) (by decide +kernel)
      (by simp), by decide +kernel⟩

end Louiselm.Launch
