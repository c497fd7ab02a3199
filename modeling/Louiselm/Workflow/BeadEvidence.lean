import Louiselm.Workflow.Beads

/-!
# What a Bead is accepted on

`lua/louiselm/workflow/beads.lua`: the evidence for an accepted Bead among the callbacks that have
acted, which more callbacks do not take away, and the Beads of a list that are settled one after
the other.
-/

namespace Louiselm.Workflow.Beads
open Base Base.Lua List
open Routing.Qualification (under)

/-! ### Evidence -/

section

variable (rt : Runtime) (options : Options) (log : List Handled) (job : Job)

/-- The Bead's preparation was asked for and passed its checks. -/
def Prepared : Prop :=
  ∃ h ∈ log, h.cont = .prepared job.number job.id ∧ h.args.first = some job.prepared ∧
    ∃ bytes, rt.checkPrepared options h.head job.id job.prepared = .ok bytes

/-- The Bead's worker ended without an error. -/
def Ended : Prop :=
  ∃ h ∈ log, ∃ inputDigest, h.cont = .completed job inputDigest ∧
    Value.isTruthy h.args.second = false

/-- The broker's reply about the Bead's own verifier said that its commands passed, with a status
like this. -/
def Viewed (shown : Option Value → Prop) : Prop :=
  ∃ h ∈ log, h.cont = .status job ∧ h.request = some (statusRequest job) ∧
    ∃ view, rt.controlReply "status" h.args = .ok view ∧
      Value.isTrue (view.field "commands_passed") = true ∧ shown (view.field "status")

/-- A status that says completed. -/
def IsCompleted (status : Option Value) : Prop := isText (under status "state") "completed" = true

/-- The broker's reply about the Bead's own verifier said completed with passing commands. -/
def Verified : Prop := Viewed rt log job IsCompleted

/-- The operator answered true. -/
def Decided : Prop :=
  ∃ h ∈ log, h.cont = .decided job ∧ Value.isTrue h.args.first = true

/-- A preview of the Bead was taken with the head of the Run branch at that time. -/
def PreviewedAt (head : Option String) (preview : Value) : Prop :=
  ∃ h ∈ log, h.cont = .previewed job (rt.selection options head job) ∧
    h.request = some (previewRequest (rt.selection options head job)) ∧ h.head = head ∧
    rt.promotionReply "preview" h.args = .ok preview ∧
    isPreviewOf (rt.selection options head job) head preview = true

/-- The broker returned a commit for the preview of the Bead, while the head was still the one that
the preview was taken with. -/
def Committed : Prop :=
  ∃ head preview, PreviewedAt rt options log job head preview ∧
    ∃ h ∈ log, h.cont = .committed job preview ∧ h.request = some (commitRequest preview) ∧
      h.head = head ∧ ∃ reply commit, rt.promotionReply "commit" h.args = .ok reply ∧
        commitOf job.id reply = some commit

/-- Everything that a Bead is accepted on, with a verification status like this. -/
structure Accepts (shown : Option Value → Prop) : Prop where
  place : options.beadIds[job.number - 1]? = some job.id
  prepared : Prepared rt options log job
  ended : Ended log job
  viewed : Viewed rt log job shown
  decided : Decided log job
  committed : options.worktree.isSome = true → Committed rt options log job

end

/-- A Bead that is accepted on evidence. -/
def Warranted (rt : Runtime) (options : Options) (log : List Handled) (id : String) : Prop :=
  ∃ job : Job, job.id = id ∧ Accepts rt options log job IsCompleted

/-- A reply about a verification that says that the commands passed, with a status like this. -/
def Handled.passes (rt : Runtime) (shown : Option Value → Bool) (h : Handled) : Bool :=
  match h.cont, rt.controlReply "status" h.args with
  | .status _, .ok view =>
    Value.isTrue (view.field "commands_passed") && shown (view.field "status")
  | _, _ => false

/-- A reply that says that the commands passed without saying how the verification stands. -/
def Handled.saysNothing (rt : Runtime) : Handled → Bool := Handled.passes rt (!Value.isTruthy ·)

/-- A status that the acceptance lets through: completed, or none at all. -/
def LetThrough (status : Option Value) : Prop :=
  Value.isTruthy status = true → IsCompleted status

/-! ### More callbacks -/

section

variable {rt : Runtime} {os : Options} {log : List Handled} {job : Job}

theorem Prepared.later (h : Prepared rt os log job) (e : Handled) :
    Prepared rt os (e :: log) job := by
  obtain ⟨x, hi, hr⟩ := h
  exact ⟨x, mem_cons_of_mem _ hi, hr⟩

theorem Ended.later (h : Ended log job) (e : Handled) : Ended (e :: log) job := by
  obtain ⟨x, hi, hr⟩ := h
  exact ⟨x, mem_cons_of_mem _ hi, hr⟩

variable {sh : Option Value → Prop}

theorem Viewed.later (h : Viewed rt log job sh) (e : Handled) : Viewed rt (e :: log) job sh := by
  obtain ⟨x, hi, hr⟩ := h
  exact ⟨x, mem_cons_of_mem _ hi, hr⟩

theorem Viewed.imp {s' : Option Value → Prop} (h : Viewed rt log job sh)
    (hm : ∀ s, sh s → s' s) : Viewed rt log job s' := by
  obtain ⟨x, hi, hc, hr, v, hv, hp, hs⟩ := h
  exact ⟨x, hi, hc, hr, v, hv, hp, hm _ hs⟩

theorem Decided.later (h : Decided log job) (e : Handled) : Decided (e :: log) job := by
  obtain ⟨x, hi, hr⟩ := h
  exact ⟨x, mem_cons_of_mem _ hi, hr⟩

theorem PreviewedAt.later {head : Option String} {p : Value} (h : PreviewedAt rt os log job head p)
    (e : Handled) : PreviewedAt rt os (e :: log) job head p := by
  obtain ⟨x, hi, hr⟩ := h
  exact ⟨x, mem_cons_of_mem _ hi, hr⟩

theorem Committed.later (h : Committed rt os log job) (e : Handled) :
    Committed rt os (e :: log) job := by
  obtain ⟨head, p, hp, x, hi, hr⟩ := h
  exact ⟨head, p, hp.later e, x, mem_cons_of_mem _ hi, hr⟩

theorem Accepts.later (h : Accepts rt os log job sh)
    (e : Handled) : Accepts rt os (e :: log) job sh where
  place := h.place
  prepared := h.prepared.later e
  ended := h.ended.later e
  viewed := h.viewed.later e
  decided := h.decided.later e
  committed hw := (h.committed hw).later e

end

/-! ### Beads that are settled -/

/-- The first Beads of a list, each accepted or failed once, both in the list's order. -/
structure Settled (ids accepted failed : List String) : Prop where
  all : (accepted ++ failed).Perm (ids.take (accepted.length + failed.length))
  acceptedOrder : accepted.Sublist (ids.take (accepted.length + failed.length))
  failedOrder : failed.Sublist (ids.take (accepted.length + failed.length))

namespace Settled

variable {ids a f : List String} {id : String}

theorem nil (ids : List String) : Settled ids [] [] := by
  constructor <;> simp

private theorem take_next (hn : ids[a.length + f.length]? = some id) :
    ids.take (a.length + f.length + 1) = ids.take (a.length + f.length) ++ [id] := by
  rw [take_add_one, hn]
  rfl

/-- The next Bead is accepted. -/
theorem accept (h : Settled ids a f) (hn : ids[a.length + f.length]? = some id) :
    Settled ids (a ++ [id]) f := by
  have hl : (a ++ [id]).length + f.length = a.length + f.length + 1 := by
    simp only [length_append, length_singleton]
    omega
  constructor
  · rw [hl, take_next hn]
    calc (a ++ [id] ++ f).Perm (a ++ (f ++ [id])) := by
          rw [append_assoc]
          exact perm_append_comm.append_left a
      _ = (a ++ f) ++ [id] := (append_assoc ..).symm
      _ |>.Perm (ids.take (a.length + f.length) ++ [id]) := h.all.append_right [id]
  · rw [hl, take_next hn]
    exact h.acceptedOrder.append (List.Sublist.refl [id])
  · rw [hl, take_next hn]
    exact h.failedOrder.trans (sublist_append_left _ _)

/-- The next Bead fails. -/
theorem fail (h : Settled ids a f) (hn : ids[a.length + f.length]? = some id) :
    Settled ids a (f ++ [id]) := by
  have hl : a.length + (f ++ [id]).length = a.length + f.length + 1 := by
    simp only [length_append, length_singleton]
    omega
  constructor
  · rw [hl, take_next hn, ← append_assoc]
    exact h.all.append_right [id]
  · rw [hl, take_next hn]
    exact h.acceptedOrder.trans (sublist_append_left _ _)
  · rw [hl, take_next hn]
    exact h.failedOrder.append (List.Sublist.refl [id])

/-- No Bead of a list without duplicates is both accepted and failed. -/
theorem disjoint (h : Settled ids a f) (hi : ids.Nodup) : (a ++ f).Nodup :=
  h.all.nodup_iff.mpr (hi.sublist (take_sublist _ _))

theorem length_le (h : Settled ids a f) : a.length + f.length ≤ ids.length := by
  have hl := h.all.length_eq
  rw [length_append, length_take] at hl
  omega

/-- All Beads are settled when as many are as there are. -/
theorem mem_of_length (h : Settled ids a f) (hl : a.length + f.length = ids.length)
    (hi : id ∈ ids) : id ∈ a ∨ id ∈ f := by
  refine mem_append.mp (h.all.mem_iff.mpr ?_)
  rwa [hl, take_length]

end Settled

end Louiselm.Workflow.Beads
