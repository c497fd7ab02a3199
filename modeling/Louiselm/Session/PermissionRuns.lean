import Louiselm.Permission.StoreRuns
import Louiselm.Session.PermissionOrder

/-!
# One permission request at a time

Runs of `Session/Permissions`: the requests are published one after another in the order of
their arrival, and answered once, except where a request is withdrawn before it was delivered,
and where an answer comes after the Session has ended.
-/

namespace Louiselm.Session
open Base Base.Lua Permission List

namespace Permissions

section

variable {session next : Permissions} {setup : Setup} {look : Look}

/-! ### Answers -/

/-- Fields that only tell of rules change. -/
theorem Kept.ruled (h : Kept session) (store : Store) (remembered : List Nat) :
    Kept { session with store, remembered } :=
  h.move rfl rfl rfl rfl rfl rfl rfl (.refl _) id h.dead h.ending

variable {entry : PermissionEntry}

/-- An answer is sent where it can be written, and changes nothing otherwise. -/
theorem sendPermission_cases (h : Kept session) (setup : Setup) (look : Look)
    (he : entry ∈ session.published) (hu : entry.number ∉ session.answered) (r : Response) :
    (session.sendPermission setup look entry r = (false, session) ∧
      (look.writable entry.number && !session.closed) = false) ∨
    ((session.sendPermission setup look entry r).1 = true ∧
      (look.writable entry.number && !session.closed) = true ∧
      Advances session (session.sendPermission setup look entry r).2) := by
  unfold sendPermission
  rcases respond_cases session look entry.number r with
    ⟨hr, hs⟩ | ⟨hr, hs⟩
  · rw [hr]
    exact Or.inl ⟨rfl, hs⟩
  · rw [hr]
    refine Or.inr ⟨rfl, hs, ?_⟩
    have hd := h.distinct
    rw [tracked, append_assoc, map_append, nodup_append] at hd
    have hk := h.answer r (tracked_published he) hu (fun o ho heq => hd.2.2 _ (mem_map_of_mem he) _
        (mem_map_of_mem (mem_append_left _ ho)) heq.symm) (.refl _)
      (fun o ho heq => hd.2.2 _ (mem_map_of_mem he) _
        (mem_map_of_mem (mem_append_right _ ho)) heq.symm)
    obtain ⟨hk', hd', ha, hc, hre⟩ :=
      pump_advances hk setup look true
    exact ⟨hk', hd', ha, hc, hre⟩

/-- The choice should be remembered and cannot be, or there is none and nothing can be written. -/
def Refuses (setup : Setup) (look : Look) (entry : PermissionEntry) (result : Option Value)
    (session : Permissions) : Prop :=
  match session.remembering setup look entry result with
  | none => (look.writable entry.number && !session.closed) = false
  | some (.error _, _) => True
  | some (.ok _, _) => False

/-- What an answer comes to, whether or not it is accepted. -/
structure Answered (setup : Setup) (look : Look) (entry : PermissionEntry)
    (result : Option Value) (session next : Permissions) : Prop where
  kept : Kept next
  drained : Drained next
  announces : Announces session next
  refused : (next.accepted = session.accepted ∧ next.remembered = session.remembered) ↔
    session.Refuses setup look entry result

theorem Kept.accept (h : Kept session) (accepted : List Nat) : Kept { session with accepted } :=
  h.move rfl rfl rfl rfl rfl rfl rfl (.refl _) id h.dead h.ending

variable {n : Nat}

theorem find?_published (h : session.published.find? (·.number == n) = some entry) :
    entry ∈ session.published ∧ entry.number = n :=
  ⟨mem_of_find?_eq_some h, by simpa using List.find?_some h⟩

/-- An answer to a request that is not answered. -/
theorem answer_answered (h : Kept session) (hd : Drained session) (setup : Setup) (look : Look)
    (hf : session.published.find? (·.number == n) = some entry) (hu : n ∉ session.answered)
    (result rpcError : Option Value) : Answered setup look entry result session
      (session.answer setup look n result rpcError) := by
  obtain ⟨he, rfl⟩ := find?_published hf
  have hp : ∀ numbers : List Nat, numbers ++ [entry.number] ≠ numbers := by
    intro numbers heq
    have hl := congrArg List.length heq
    rw [length_append] at hl
    exact absurd hl (Nat.succ_ne_self _)
  unfold answer
  rw [hf]
  dsimp only
  unfold respondPermission
  rw [if_neg (by simpa using hu)]
  cases hr : session.remembering setup look entry result with
  | none =>
    dsimp only
    rcases sendPermission_cases h setup look he hu ⟨result, rpcError⟩ with ⟨hs, hse⟩ | ⟨hs, hse, ha⟩
    · rw [hs]
      refine ⟨h, hd, Or.inl rfl, ?_⟩
      rw [Refuses, hr]
      exact ⟨fun _ => hse, fun _ => ⟨rfl, rfl⟩⟩
    · rw [show session.sendPermission setup look entry ⟨result, rpcError⟩ = (true, _) from
        Prod.ext hs rfl]
      refine ⟨ha.kept.accept _, ha.drained, ha.announces, ?_⟩
      rw [Refuses, hr]
      constructor
      · rintro ⟨hc, -⟩
        have hadd : (session.sendPermission setup look entry ⟨result, rpcError⟩).2.accepted ++
            [entry.number] = session.accepted := hc
        rw [ha.accepted] at hadd
        exact absurd hadd (hp _)
      · intro hn
        rw [hse] at hn
        cases hn
  | some choice =>
    obtain ⟨outcome, store⟩ := choice
    cases outcome with
    | error message =>
      dsimp only
      have hru : Kept { session with store } := h.ruled store session.remembered
      have hrd : Drained { session with store } := hd
      rcases sendPermission_cases hru setup look he
        hu ⟨some Gates.cancelled, none⟩ with ⟨hs, -⟩ | ⟨-, -, ha⟩
      · rw [hs]
        refine ⟨hru, hrd, Or.inl rfl, ?_⟩
        rw [Refuses, hr]
        exact ⟨fun _ => trivial, fun _ => ⟨rfl, rfl⟩⟩
      · refine ⟨ha.kept, ha.drained, ha.announces, ?_⟩
        rw [Refuses, hr]
        exact ⟨fun _ => trivial, fun _ => ⟨ha.accepted, ha.remembered⟩⟩
    | ok rule =>
      dsimp only
      have hru : Kept { session with
          store, remembered := session.remembered ++ [entry.number] } := h.ruled store _
      have hrd : Drained { session with
          store, remembered := session.remembered ++ [entry.number] } := hd
      rcases sendPermission_cases hru setup look he hu ⟨result, rpcError⟩ with ⟨hs, -⟩ | ⟨hs, -, ha⟩
      · rw [hs]
        refine ⟨hru, hrd, Or.inl rfl, ?_⟩
        rw [Refuses, hr]
        exact ⟨fun hsa => hp _ hsa.2, False.elim⟩
      · rw [show sendPermission setup look entry ⟨result, rpcError⟩ { session with
          store, remembered := session.remembered ++ [entry.number] } = (true, _) from
          Prod.ext hs rfl]
        refine ⟨ha.kept.accept _, ha.drained, ha.announces, ?_⟩
        rw [Refuses, hr]
        refine ⟨fun hsa => ?_, False.elim⟩
        have hre := ha.remembered.symm.trans hsa.2
        exact hp _ hre

/-- An answer to nothing, or to a request that is answered, is refused. -/
theorem answer_refused (h : session.published.find? (·.number == n) = none ∨ n ∈ session.answered)
    (r re : Option Value) : session.answer setup look n r re = session := by
  unfold answer
  split
  · rfl
  · rename_i entry hf
    obtain ⟨-, rfl⟩ := find?_published hf
    have ha : entry.number ∈ session.answered := by
      rcases h with hn | ha
      · rw [hf] at hn
        cases hn
      · exact ha
    rw [respondPermission, if_pos (contains_iff_mem.mpr ha)]

/-! ### Withdrawal -/

/-- Cancelling requests marks them all as answered, and writes to some of them. -/
theorem foldl_cancelEntry (look : Look) (es : List PermissionEntry) (session : Permissions)
    (hn : (es.map (·.number)).Nodup) (hu : ∀ n ∈ es.map (·.number), n ∉ session.answered) :
    ∃ r, es.foldl (cancelEntry look) session = { session with
        answered := session.answered ++ es.map (·.number)
        written := session.written ++ r } ∧
      (r.map Prod.fst).Sublist (es.map (·.number)) := by
  induction es generalizing session with
  | nil =>
    refine ⟨[], ?_, .refl _⟩
    rw [foldl_nil, map_nil, append_nil, append_nil]
  | cons entry xs ih =>
    obtain ⟨he, hre⟩ := nodup_cons.mp hn
    have ht := hu entry.number mem_cons_self
    have hst : ∃ x, cancelEntry look session entry = { session with
          answered := session.answered ++ [entry.number]
          written := session.written ++ x } ∧
        (x.map Prod.fst).Sublist [entry.number] := by
      rw [cancelEntry, if_neg (by simpa using ht)]
      rcases respond_cases (session.markAnswered entry.number) look
        entry.number ⟨some Gates.cancelled, none⟩ with ⟨hr, -⟩ | ⟨hr, -⟩
      · refine ⟨[], ?_, nil_sublist _⟩
        rw [hr, append_nil]
        rfl
      · rw [hr]
        exact ⟨_, rfl, .refl _⟩
    obtain ⟨x, hf, hsu⟩ := hst
    obtain ⟨os, ho, hs⟩ := ih { session with
        answered := session.answered ++ [entry.number]
        written := session.written ++ x } hre (by
      intro n hm ha
      rcases mem_append.mp ha with ha | ha
      · exact hu n (mem_cons_of_mem _ hm) ha
      · rw [mem_singleton.mp ha] at hm
        exact he hm)
    refine ⟨x ++ os, ?_, ?_⟩
    · rw [foldl_cons, hf, ho]
      simp only [append_assoc, singleton_append, map_cons]
    · rw [map_append, map_cons]
      exact hsu.append hs

theorem cancelPermissions_advances (h : Kept session) :
    Advances session (session.cancelPermissions look) := by
  obtain ⟨r, hf, hs⟩ := foldl_cancelEntry look session.outstanding session.clear
    h.outstanding_nodup fun n hm => (h.of_outstanding hm).2.1
  have hk := h.clear (session.outstanding.map (·.number)) r
    (fun _ hm => hm) (fun _ hm => Or.inl hm) hs fun _ hm => hs.subset hm
  unfold cancelPermissions
  dsimp only
  rw [hf]
  split
  · exact ⟨hk, fun _ _ => rfl, Or.inl rfl, rfl, rfl⟩
  · refine ⟨?_, fun _ _ => rfl, Or.inl rfl, rfl, rfl⟩
    exact hk.move rfl rfl rfl rfl rfl rfl rfl (.refl _) id hk.dead hk.ending

/-- A Session that has ended takes its requests back. -/
theorem clear_advances (h : Kept session) (he : session.ended = true) (look : Look) :
    Advances session (session.clear.close look) := by
  have hk := h.clear [] [] (fun _ hm => nomatch hm)
    (fun _ _ => Or.inr he) (nil_sublist _) (fun _ hm => nomatch hm)
  rw [append_nil, append_nil] at hk
  refine ⟨?_, fun _ _ => rfl, Or.inl rfl, rfl, rfl⟩
  exact hk.move rfl rfl rfl rfl rfl rfl rfl (.refl _) id hk.dead hk.ending

/-- A frame that publishes nothing is pushed. -/
theorem push_advances (h : Kept session) (hd : Drained session) {frame : Frame}
    (hf : frame.announcing = none) {status : Status} {ended : Bool}
    (he : session.ended = true → ended = true) (hde : status.isDead = true → ended = true)
    (hn : frame = .failed ∨ frame = .disposed → ended = true) :
    Advances session { session with status, ended, frames := frame :: session.frames } := by
  have ha : (frame :: session.frames).filterMap Frame.announcing = session.announcing :=
    filterMap_cons_none hf
  refine ⟨?_, ?_, Or.inl rfl, rfl, rfl⟩
  · refine h.move rfl rfl rfl rfl rfl rfl rfl ?_ he hde ?_
    · rw [announcing, ha]
    · intro other ho hl
      rcases mem_cons.mp ho with rfl | ho
      · exact hn hl
      · exact he (h.ending other ho hl)
  · intro hi
    refine hd ?_
    cases hs : session.ended with
    | false => rfl
    | true =>
      rw [show ended = false from hi] at he
      cases he hs

theorem fail_advances (h : Kept session) (hd : Drained session) :
    Advances session session.fail := by
  unfold fail
  split
  · exact ⟨h, hd, Or.inl rfl, rfl, rfl⟩
  · exact push_advances h hd rfl id h.dead fun hf => by
      rcases hf with hf | hf <;> cases hf

theorem failing_advances (h : Kept session) (hd : Drained session) :
    Advances session (session.failing look) := by
  unfold failing
  split
  · exact ⟨h, hd, Or.inl rfl, rfl, rfl⟩
  · split
    · rename_i he
      refine clear_advances h (h.dead ?_) look
      rw [he]
      rfl
    · exact push_advances h hd rfl (fun _ => rfl) (fun _ => rfl) fun _ => rfl

theorem dispose_advances (h : Kept session) (hd : Drained session) :
    Advances session session.dispose := by
  unfold dispose
  split
  · exact ⟨h, hd, Or.inl rfl, rfl, rfl⟩
  · exact push_advances h hd rfl id h.dead fun hf => by
      rcases hf with hf | hf <;> cases hf

theorem disposed_advances (h : Kept session) (he : session.ended = true) :
    Advances session (session.disposed setup look) := by
  have hu := h.ruled (session.store.clearSession setup.id).2 session.remembered
  obtain ⟨hk, hd, ha, hc, hr⟩ :=
    clear_advances hu he look
  exact ⟨hk, hd, ha, hc, hr⟩

theorem disposing_advances (h : Kept session) (hd : Drained session) :
    Advances session (session.disposing setup look) := by
  unfold disposing
  split
  · rename_i hi
    refine disposed_advances h (h.dead ?_)
    rw [hi]
    rfl
  · exact push_advances h hd rfl (fun _ => rfl) (fun _ => rfl) fun _ => rfl

theorem cancelling_advances (h : Kept session) (hd : Drained session) :
    Advances session (session.cancelling look) := by
  unfold cancelling
  split
  · exact cancelPermissions_advances h
  · exact fail_advances h hd

theorem cancel_advances (h : Kept session) (hd : Drained session) (unsent : Bool) :
    Advances session (session.cancel look unsent) := by
  unfold cancel
  split
  · exact ⟨h, hd, Or.inl rfl, rfl, rfl⟩
  · split
    · exact cancelling_advances h hd
    · exact push_advances h hd rfl id (fun he => nomatch he) fun hf => by
        rcases hf with hf | hf <;> cases hf

/-! ### Requests -/

/-- A request gets a response at once, if it can be written. -/
theorem arrive_advances (h : Kept session) (hd : Drained session) (r : Response) :
    Advances session (({ session with arrived := session.arrived + 1 }.respond look
      session.arrived r).2) := by
  rcases respond_cases { session with arrived := session.arrived + 1 } look session.arrived
    r with ⟨hr, -⟩ | ⟨hr, -⟩
  · rw [hr]
    have hk := h.arrive (Or.inl rfl)
    rw [append_nil] at hk
    exact ⟨hk, hd, Or.inl rfl, rfl, rfl⟩
  · rw [hr]
    exact ⟨h.arrive (Or.inr ⟨r, rfl⟩), hd, Or.inl rfl, rfl, rfl⟩

theorem enqueue_advances (h : Kept session) (hn : entry.number = session.arrived) :
    Advances session
      ({ session with arrived := session.arrived + 1 }.enqueue setup look entry) := by
  obtain ⟨hk, hd, ha, hc, hr⟩ :=
    pump_advances (h.queue hn) setup look false
  exact ⟨hk, hd, ha, hc, hr⟩

theorem handleRequest_advances (h : Kept session) (hd : Drained session) (ri : Value)
    (p : Option Value) : Advances session (session.handleRequest setup look ri p) := by
  unfold handleRequest
  dsimp only
  split
  · split
    · exact arrive_advances h hd _
    · split
      · exact arrive_advances h hd _
      · split
        · exact enqueue_advances h rfl
        · split
          · exact arrive_advances h hd _
          · split
            · exact arrive_advances h hd _
            · exact enqueue_advances h rfl
  · exact arrive_advances h hd _

end

/-! ### Steps that keep the order -/

/-- Nothing happens at the wrong time: the request that is to be published is still active or
the Session is disposed of; and when an answer comes to an unanswered request after the Session
has ended, then its choice cannot be remembered, or there is none and nothing can be written. -/
def Careful (setup : Setup) (session : Permissions) : PermissionEvent → Prop
  | .resume _ => ∀ entry settles frames, session.frames = .announce entry settles :: frames →
      session.status = .disposed ∨ session.permissionActive = some entry
  | .answer look number result _ => session.ended = true → number ∉ session.answered →
      ∀ entry, session.published.find? (·.number == number) = some entry →
        session.Refuses setup look entry result
  | _ => True

/-- A request is published in the order of arrival and not once it is withdrawn, and an answer
that comes too late is refused: it is neither accepted nor remembered. -/
structure Proper (session next : Permissions) (event : PermissionEvent) : Prop where
  announces : Announces session next
  refused : ∀ look number result rpcError, event = .answer look number result rpcError →
    number ∈ session.answered ∨ number ∈ session.withdrawn ∨ session.ended = true →
    next.accepted = session.accepted ∧ next.remembered = session.remembered

section

variable {se : Setup} {session : Permissions}

/-- What is left to do keeps the order, where the request to be published is still active. -/
theorem resume_advances (h : Kept session) (hd : Drained session) (look : Look)
    (hc : Careful se session (.resume look)) : Advances session (session.resume se look) := by
  unfold resume
  split
  · exact ⟨h, hd, Or.inl rfl, rfl, rfl⟩
  · rename_i frame frames hf
    have hs : (frames.filterMap Frame.announcing).Sublist session.announcing := by
      rw [announcing, hf]
      exact (sublist_cons_self frame frames).filterMap _
    have hen : ∀ o ∈ frames, o = .failed ∨ o = .disposed → session.ended = true := by
      intro o ho
      refine h.ending o ?_
      rw [hf]
      exact mem_cons_of_mem _ ho
    have hp : Kept { session with frames } :=
      h.move rfl rfl rfl rfl rfl rfl rfl hs id h.dead hen
    have he : frame = .failed ∨ frame = .disposed → session.ended = true := by
      refine h.ending frame ?_
      rw [hf]
      exact mem_cons_self
    have hl : ∀ next, Advances { session with frames } next → Advances session next :=
      fun next hn =>
        ⟨hn.kept, hn.drained, hn.announces, hn.accepted, hn.remembered⟩
    cases frame with
    | announce entry s =>
      dsimp only
      unfold announce
      split
      · exact hl _ (pump_advances hp se look s)
      · rename_i hi
        have ha := (hc entry s frames hf).resolve_left hi
        obtain ⟨hk, hla⟩ := h.publish hf ha
        refine ⟨hk, ?_, Or.inr ⟨entry, rfl, (h.active entry ha).held, hla⟩, rfl, rfl⟩
        intro hne hno
        exact hd hne hno
    | published s => exact hl _ (pump_advances hp se look s)
    | cancelling => exact hl _ (cancelling_advances hp hd)
    | failing => exact hl _ (failing_advances hp hd)
    | failed => exact hl _ (clear_advances hp (he (Or.inl rfl)) look)
    | disposing => exact hl _ (disposing_advances hp hd)
    | disposed => exact hl _ (disposed_advances hp (he (Or.inr rfl)))

/-- Where a request is to be published that is not active any more, it is withdrawn. -/
theorem careful_of_announces (h : Kept session) (look : Look)
    (ha : Announces session (session.resume se look)) : Careful se session (.resume look) := by
  intro entry settles frames hf
  by_cases hi : session.status = .disposed
  · exact Or.inl hi
  · right
    have hm : entry ∈ session.announcing := by
      rw [announcing, hf]
      exact mem_cons_self
    refine (h.announced entry hm).resolve_right fun hd => ?_
    have hr : session.resume se look = { session with frames }.publish entry settles := by
      rw [resume, hf]
      exact if_neg hi
    rw [hr] at ha
    rcases ha with hs | ⟨other, ho, hh, -⟩
    · have hl := congrArg List.length hs
      rw [Permissions.publish, length_append] at hl
      exact absurd hl (Nat.succ_ne_self _)
    · obtain ⟨-, heq⟩ := append_inj' ho rfl
      obtain rfl := singleton_inj.mp heq
      exact hh hd

/-- What holds in every state of a run, and after it. -/
structure Tidy (session : Permissions) : Prop where
  kept : Kept session
  drained : Drained session

variable {e : PermissionEvent}

/-- A careful step is proper, and keeps everything. -/
theorem step_proper (h : Tidy session) (hc : Careful se session e) :
    Tidy (session.step se e) ∧ Proper session (session.step se e) e := by
  have ho : ∀ next, Advances session next → (∀ look nu r re, e ≠ .answer look nu r re) →
      Tidy next ∧ Proper session next e := by
    intro next hn he
    refine ⟨⟨hn.kept, hn.drained⟩, hn.announces, ?_⟩
    intro look nu r re heq
    exact absurd heq (he look nu r re)
  cases e with
  | request look ri p =>
    exact ho _ (handleRequest_advances h.kept h.drained ri p) fun _ _ _ _ heq => nomatch heq
  | answer look nu r re =>
    show Tidy (session.answer se look nu r re) ∧ Proper session (session.answer se look nu r re) _
    by_cases hs : nu ∈ session.answered
    · rw [answer_refused (Or.inr hs)]
      exact ⟨h, Or.inl rfl, fun _ _ _ _ _ _ => ⟨rfl, rfl⟩⟩
    · cases hf : session.published.find? (·.number == nu) with
      | none =>
        rw [answer_refused (Or.inl hf)]
        exact ⟨h, Or.inl rfl, fun _ _ _ _ _ _ => ⟨rfl, rfl⟩⟩
      | some entry =>
        have hn := answer_answered h.kept h.drained se look hf hs r re
        refine ⟨⟨hn.kept, hn.drained⟩, hn.announces, ?_⟩
        rintro l' n' r' re' heq hl
        obtain ⟨rfl, rfl, rfl, rfl⟩ := PermissionEvent.answer.inj heq
        refine hn.refused.mpr (hc ?_ hs entry hf)
        rcases hl with hl | hl | hl
        · exact absurd hl hs
        · exact (h.kept.withdrawn nu hl).resolve_left hs
        · exact hl
  | cancel look u =>
    exact ho _ (cancel_advances h.kept h.drained u) fun _ _ _ _ heq => nomatch heq
  | fail => exact ho _ (fail_advances h.kept h.drained) fun _ _ _ _ heq => nomatch heq
  | dispose => exact ho _ (dispose_advances h.kept h.drained) fun _ _ _ _ heq => nomatch heq
  | resume look =>
    exact ho _ (resume_advances h.kept h.drained look hc) fun _ _ _ _ heq => nomatch heq
  | hangUp =>
    refine ho _ ⟨?_, h.drained, Or.inl rfl, rfl, rfl⟩ fun _ _ _ _ heq => nomatch heq
    exact h.kept.move rfl rfl rfl rfl rfl rfl rfl (.refl _) id h.kept.dead h.kept.ending
  | moved stt =>
    refine ho _ ?_ fun _ _ _ _ heq => nomatch heq
    simp only [step]
    split
    · exact ⟨h.kept, h.drained, Or.inl rfl, rfl, rfl⟩
    · rename_i ha
      refine ⟨?_, h.drained, Or.inl rfl, rfl, rfl⟩
      exact h.kept.move rfl rfl rfl rfl rfl rfl rfl (.refl _) id
        (fun hd => absurd hd ha) h.kept.ending
  | identified asi =>
    refine ho _ ⟨?_, h.drained, Or.inl rfl, rfl, rfl⟩ fun _ _ _ _ heq => nomatch heq
    exact h.kept.move rfl rfl rfl rfl rfl rfl rfl (.refl _) id h.kept.dead h.kept.ending
  | ruled s =>
    exact ho _ ⟨h.kept.ruled s _, h.drained, Or.inl rfl, rfl, rfl⟩ fun _ _ _ _ heq => nomatch heq

/-- A proper step is careful. -/
theorem careful_of_proper (h : Tidy session)
    (hp : Proper session (session.step se e) e) : Careful se session e := by
  cases e with
  | resume look => exact careful_of_announces h.kept look hp.announces
  | answer look nu r re =>
    intro he ha entry hf
    have hn := answer_answered h.kept h.drained se look hf ha r re
    exact hn.refused.mp (hp.refused look nu r re rfl (Or.inr (Or.inr he)))
  | _ => trivial

end

/-! ### Runs -/

/-- The requests of a Session as they are to be at any time. -/
structure Orderly (session : Permissions) : Prop where
  /-- At most one response was written for every request. -/
  once : (session.written.map Prod.fst).Nodup
  /-- A published request that can still be decided is the active one. -/
  single : ∀ entry ∈ session.published, entry.number ∉ session.answered →
    entry.number ∉ session.withdrawn → session.permissionActive = some entry
  /-- The requests were published in the order of their arrival. -/
  ordered : (session.published.map (·.number)).Pairwise (· < ·)
  drained : Drained session

theorem Tidy.orderly {session : Permissions} (h : Tidy session) : Orderly session := by
  have ho := h.kept.ordered
  rw [map_append, pairwise_append] at ho
  exact ⟨h.kept.once, h.kept.single, ho.1, h.drained⟩

theorem new_tidy (s : Store) : Tidy (new s) where
  kept := by
    constructor
    case distinct => exact nodup_nil
    case once => exact nodup_nil
    case ordered => exact List.Pairwise.nil
    case dead => exact fun hd => nomatch hd
    all_goals exact fun _ hm => nomatch hm
  drained := fun _ _ => rfl

theorem orderly_iff_careful {setup : Setup} {session : Permissions} (h : Tidy session)
    (es : List PermissionEvent) : (Always (step setup) Orderly session es ∧
      Throughout (step setup) (fun s ev => Proper s (s.step setup ev) ev) session es) ↔
      Throughout (step setup) (Careful setup) session es := by
  induction es generalizing session with
  | nil => exact ⟨fun _ => trivial, fun _ => ⟨h.orderly, trivial⟩⟩
  | cons ev es ih =>
    constructor
    · rintro ⟨⟨-, ho⟩, hp, hr⟩
      have hc := careful_of_proper h hp
      exact ⟨hc, (ih (step_proper h hc).1).mp ⟨ho, hr⟩⟩
    · rintro ⟨hc, hr⟩
      obtain ⟨hn, hp⟩ := step_proper h hc
      obtain ⟨ho, ha⟩ := (ih hn).mpr hr
      exact ⟨⟨h.orderly, ho⟩, hp, ha⟩

/-- In a run of any events, the requests are published one at a time and answered once, and
answers that come too late are refused, exactly where every step is careful. -/
theorem permissions_orderly_iff (setup : Setup) (store : Store) (events : List PermissionEvent) :
    (Always (step setup) Orderly (new store) events ∧
      Throughout (step setup) (fun state event => Proper state (state.step setup event) event)
        (new store) events) ↔ Throughout (step setup) (Careful setup) (new store) events :=
  orderly_iff_careful (new_tidy store) events

/-! ### Samples -/

/-- A Session that leaves every request for a human. -/
def askingSetup : Setup :=
  ⟨fun _ => "", id, askHuman, false, some (.str "session"), sampleContext⟩

/-- Every write goes through, and nothing is known of the turn. -/
def plainLook : Look :=
  { paths := plainPaths, access := fun _ => ⟨none, none⟩, visit := fun _ rules => rules
    writable := fun _ => true, notified := true, closes := true, turnDone := false
    turnFinished := false, agentRunning := none, admitted := false }

/-- A request to run a command, which can be allowed for ever. -/
def commandParams : Value :=
  .table [(.str "sessionId", .str "acp"),
    (.str "options", .array [.table [(.str "optionId", .str "ever"),
      (.str "kind", .str "allow_always")]]),
    (.str "toolCall", .table [(.str "kind", .str "execute"),
      (.str "rawInput", .table [(.str "command", .array [.str "ls"])])])]

/-- A request comes in while a prompt is answered. -/
def requested : List PermissionEvent :=
  [.identified "acp", .moved .prompting, .request plainLook (.str "id") (some commandParams)]

/-- The request is published, and the Session fails and closes its transport. -/
def failedWhileOpen : List PermissionEvent :=
  requested ++ [.resume plainLook, .resume plainLook, .fail, .resume plainLook, .resume plainLook]

/-- A listener cancels the turn when it learns that a decision is waited for. -/
def cancelledUnseen : List PermissionEvent :=
  requested ++ [.cancel plainLook false, .resume plainLook]

/-- A human allows a command for ever. -/
def lateAnswer : PermissionEvent := .answer plainLook 0 (some (Gates.selected "ever")) none

/-- The Session after a run. -/
def asked (events : List PermissionEvent) : Permissions :=
  events.foldl (step askingSetup) (new .new)

/-- An answer to a request of a failed Session is remembered, and a request is published after it
was withdrawn. -/
theorem permissions_not_orderly :
    ((asked failedWhileOpen).status = .error ∧ (asked failedWhileOpen).closed = true ∧
      (asked failedWhileOpen).remembered = [] ∧
      (asked (failedWhileOpen ++ [lateAnswer])).remembered = [0] ∧
      (asked (failedWhileOpen ++ [lateAnswer])).store.file.length = 1) ∧
    ((asked cancelledUnseen).withdrawn = [0] ∧ (asked cancelledUnseen).published.length = 0 ∧
      (asked (cancelledUnseen ++ [.resume plainLook])).published.map (·.number) = [0]) ∧
    ¬ Throughout (step askingSetup)
      (fun state event => Proper state (state.step askingSetup event) event) (new .new)
      (failedWhileOpen ++ [lateAnswer]) ∧ ¬ Throughout (step askingSetup)
      (fun state event => Proper state (state.step askingSetup event) event) (new .new)
      (cancelledUnseen ++ [.resume plainLook]) := by
  have hf : (asked failedWhileOpen).ended = true ∧ (asked failedWhileOpen).remembered = [] ∧
      (asked (failedWhileOpen ++ [lateAnswer])).remembered = [0] := by decide +kernel
  have hc : (asked cancelledUnseen).withdrawn = [0] ∧
      (asked cancelledUnseen).published.map (·.number) = [] ∧
      (asked (cancelledUnseen ++ [.resume plainLook])).published.map (·.number) = [0] ∧
      (asked (cancelledUnseen ++ [.resume plainLook])).withdrawn = [0] := by decide +kernel
  refine ⟨by decide +kernel, by decide +kernel, ?_, ?_⟩
  · intro h
    have hl := (throughout_append.mp h).2.1
    have hs := (hl.refused plainLook 0 _ none rfl (Or.inr (Or.inr hf.1))).2
    have ha : (asked (failedWhileOpen ++ [lateAnswer])).remembered =
        (asked failedWhileOpen).remembered := by
      rw [asked, foldl_append]
      exact hs
    rw [hf.2.2, hf.2.1] at ha
    cases ha
  · intro h
    have hl := (throughout_append.mp h).2.1.announces
    have hne : (asked cancelledUnseen).step askingSetup (.resume plainLook) =
        asked (cancelledUnseen ++ [.resume plainLook]) := by
      rw [asked, asked, foldl_append]
      rfl
    rw [show cancelledUnseen.foldl (step askingSetup) (new .new) = asked cancelledUnseen from rfl,
      hne] at hl
    rcases hl with hs | ⟨entry, he, hh, -⟩
    · have hn := congrArg (List.map (·.number)) hs
      rw [hc.2.1, hc.2.2.1] at hn
      cases hn
    · have hn := congrArg (List.map (·.number)) he
      rw [map_append, hc.2.1, hc.2.2.1] at hn
      have hz : (0 : Nat) = entry.number := singleton_inj.mp hn
      rw [hc.2.2.2, ← hz] at hh
      exact hh mem_cons_self

end Permissions

end Louiselm.Session
