import Mathlib.Algebra.BigOperators.Group.List.Basic
import Louiselm.Base.Runs
import Louiselm.Broker.Dependencies

/-!
# Dependency fetches along every run

The requests of `Broker/Dependencies` under calls that may stop at any of their operations.
Every permit is behind an intent of its own, and the requests with an intent stay within the
approved scope. What a candidate is permitted by is in the files.
-/

namespace Louiselm.Broker.Dependencies
open Base Canonical List Except Bool
open Base.Program
open Broker.Authorization (Records Stored)
open Launch.Protocol (ProtocolError)
open Guard StartingLockfile Directory Record

/-! ### The policy -/

section

variable {externals : Externals} {candidate ot : Candidate} {cts : Set Bytes} {nowMs : UInt64}

/-- On contents without a collision an identity names the candidate. -/
theorem id_inj (hf : CollisionFree externals.sha256 cts) (hc : externals.json.toVec candidate ∈ cts)
    (ho : externals.json.toVec ot ∈ cts) {id : String} (h : candidate.id externals = .ok id)
    (hs : ot.id externals = .ok id) : candidate = ot := by
  obtain ⟨_, -, hi⟩ := bind_ok.mp h
  obtain ⟨_, -, hoi⟩ := bind_ok.mp hs
  have ht := (ok.inj hi).trans (ok.inj hoi).symm
  have hb := (Digest.of_inj hf hc ho).mp (Digest.toString_inj.mp ht)
  exact (externals.json.toVec_inj (by decide)).mp hb

/-- The identities that are found are those of the candidates. -/
theorem distinctIds_ok {cs : List Candidate} {ids f : List String}
    (h : distinctIds externals cs ids = .ok f) :
    ∀ id ∈ f, id ∈ ids ∨ ∃ candidate ∈ cs, candidate.id externals = .ok id := by
  induction cs generalizing ids with
  | nil =>
    obtain rfl := ok.inj h
    exact fun id hi => .inl hi
  | cons candidate cs ih =>
    obtain ⟨x, hf, h⟩ := bind_ok.mp h
    obtain ⟨-, h⟩ := check_ok.mp h
    intro id hi
    rcases ih h id hi with hb | ⟨l, hl, hs⟩
    · rcases mem_append.mp hb with hold | hn
      · exact .inl hold
      · obtain rfl := mem_singleton.mp hn
        exact .inr ⟨candidate, mem_cons_self, hf⟩
    · exact .inr ⟨l, mem_cons_of_mem _ hl, hs⟩

variable {ow : DependencySession}

theorem new_ok {p : DependencyPolicy} (h : DependencySession.new externals p nowMs = .ok ow) :
    ow.policy = p ∧
      ∀ id ∈ ow.approved, ∃ candidate ∈ p.preapproved, candidate.id externals = .ok id := by
  obtain ⟨-, h⟩ := check_ok.mp h
  obtain ⟨approved, hi, h⟩ := bind_ok.mp h
  obtain rfl := ok.inj h
  refine ⟨rfl, fun id hd => (distinctIds_ok hi id hd).resolve_left ?_⟩
  exact not_mem_nil

variable {after : DependencySession}

/-- What a decision says of a candidate. -/
theorem consider_ok {d : Decision} (h : ow.consider externals candidate nowMs = .ok (d, after)) :
    ∃ id, candidate.id externals = .ok id ∧
      match d with
      | .authorized => id ∈ ow.approved ∨
        candidate.automatic = true ∧ candidate ∈ ow.policy.starting.entries
      | .pending candidateId => candidateId = id ∧ ow.policy.attendance ≠ .unattended
      | .denied => True := by
  obtain ⟨-, h⟩ := check_ok.mp h
  obtain ⟨id, hi, h⟩ := bind_ok.mp h
  refine ⟨id, hi, ?_⟩
  split at h
  · next hl =>
    obtain ⟨rfl, -⟩ := Prod.mk.inj (ok.inj h)
    simpa [contains_eq_mem] using hl
  · split at h
    · obtain ⟨rfl, -⟩ := Prod.mk.inj (ok.inj h)
      trivial
    · next ha =>
      obtain ⟨-, h⟩ := check_ok.mp h
      obtain ⟨rfl, -⟩ := Prod.mk.inj (ok.inj h)
      exact ⟨rfl, ha⟩

theorem beginFetch_ok {mb : UInt64} {p : FetchPermit}
    (h : ow.beginFetch externals candidate mb nowMs = .ok (p, after)) :
    p.candidate = candidate ∧ p.maxBytes = mb := by
  obtain ⟨_, -, h⟩ := bind_ok.mp h
  obtain ⟨-, h⟩ := check_ok.mp h
  obtain ⟨rfl, -⟩ := Prod.mk.inj (ok.inj h)
  exact ⟨rfl, rfl⟩

/-- A registry package of a lockfile that has a checksum, as a candidate. -/
structure Checksummed (externals : Externals) (lockfile : Bytes) (candidate : Candidate) :
    Prop where
  package : ∃ text document package locator registry checksum, lockfile = utf8 text ∧
    externals.toml text = some document ∧ package ∈ document.package ∧
    package.source = some locator ∧ sourceOf locator = .ok (.registry registry) ∧
    package.checksum = some checksum ∧
    candidate = ⟨package.name, package.version, .registry registry, some ("sha256:" ++ checksum)⟩

theorem entriesOf_ok {ps : List Package} {i : List (String × String × String)} {es : List Candidate}
    (h : entriesOf externals i ps = .ok es) : ∀ candidate ∈ es, ∃ p ∈ ps, ∃ l, p.source = some l ∧
      sourceOf l = .ok candidate.source ∧ candidate = ⟨p.name, p.version,
        candidate.source, p.checksum.map ("sha256:" ++ ·)⟩ := by
  induction ps generalizing i es with
  | nil =>
    obtain rfl := ok.inj h
    exact forall_mem_nil _
  | cons p ps ih =>
    have hl : ∀ {candidate : Candidate}, (∃ ot ∈ ps, ∃ l,
        ot.source = some l ∧ sourceOf l = .ok candidate.source ∧
        candidate = ⟨ot.name, ot.version, candidate.source,
          ot.checksum.map ("sha256:" ++ ·)⟩) → ∃ ot ∈ p :: ps, ∃ l, ot.source = some l ∧
          sourceOf l = .ok candidate.source ∧ candidate = ⟨ot.name, ot.version,
            candidate.source, ot.checksum.map ("sha256:" ++ ·)⟩ := by
      rintro candidate ⟨ot, ho, hr⟩
      exact ⟨ot, mem_cons_of_mem _ ho, hr⟩
    unfold entriesOf at h
    split at h
    · obtain ⟨-, h⟩ := check_ok.mp h
      exact fun candidate hc => hl (ih h candidate hc)
    · next l hlo =>
      obtain ⟨-, h⟩ := check_ok.mp h
      obtain ⟨source, hs, h⟩ := bind_ok.mp h
      obtain ⟨_, -, h⟩ := bind_ok.mp h
      obtain ⟨xs, hr, h⟩ := bind_ok.mp h
      obtain rfl := ok.inj h
      refine forall_mem_cons.mpr ⟨?_, fun candidate hc =>
        hl (ih hr candidate hc)⟩
      exact ⟨p, mem_cons_self, l, hlo, hs, rfl⟩

/-- What a starting lockfile lets be fetched without being asked about. -/
theorem cargo_ok {loc : Bytes} {st : StartingLockfile} (h : cargo externals loc = .ok st) :
    st.digest = (Digest.of externals.sha256 loc).toString ∧
      ∀ candidate ∈ st.entries, candidate.automatic = true →
        Checksummed externals loc candidate := by
  obtain ⟨-, h⟩ := check_ok.mp h
  obtain ⟨t, ht, h⟩ := bind_ok.mp h
  obtain ⟨d, hd, h⟩ := bind_ok.mp h
  obtain ⟨-, h⟩ := check_ok.mp h
  obtain ⟨entries, he, h⟩ := bind_ok.mp h
  obtain rfl := ok.inj h
  refine ⟨rfl, fun candidate hca ha => ⟨?_⟩⟩
  have ht : String.fromUTF8? ⟨loc.toArray⟩ = some t := by
    cases hr : String.fromUTF8? ⟨loc.toArray⟩ with
    | none => simp [hr] at ht
    | some f => rw [hr] at ht; rw [ok.inj ht]
  have hd : externals.toml t = some d := by
    cases hr : externals.toml t with
    | none => simp [hr] at hd
    | some f => rw [hr] at hd; rw [ok.inj hd]
  obtain ⟨p, hp, l, hl, ho, hs⟩ :=
    entriesOf_ok he candidate hca
  simp only [Candidate.automatic, and_eq_true] at ha
  obtain ⟨hre, hi⟩ := ha
  have hn : ∃ registry, candidate.source = .registry registry := by
    cases hk : candidate.source with
    | registry registry => exact ⟨registry, rfl⟩
    | _ => simp [hk, Source.isRegistry] at hre
  obtain ⟨registry, hn⟩ := hn
  have hc : ∃ c, p.checksum = some c := by
    rw [hs] at hi
    simpa [Option.isSome_iff_exists] using hi
  obtain ⟨c, hc⟩ := hc
  refine ⟨t, d, p, l, registry, c, utf8_of_fromUTF8? ht, hd, hp, hl, hn ▸ ho, hc, ?_⟩
  rw [hs, hn, hc]
  rfl

end

/-! ### What the files say -/

/-- The records of some files that can be read. -/
def held {α : Type} : Records α → List α
  | [] => []
  | (_, .torn) :: rest => held rest
  | (_, .whole record) :: rest => record :: held rest

theorem mem_held {α : Type} {f : Records α} {record : α} :
    record ∈ held f ↔ ∃ name, (name, .whole record) ∈ f := by
  induction f with
  | nil => simp [held]
  | cons fi f ih =>
    obtain ⟨name, st⟩ := fi
    cases st <;> simp [held, ih, exists_or]

theorem held_append {α : Type} (f os : Records α) : held (f ++ os) = held f ++ held os := by
  induction f with
  | nil => rfl
  | cons fi f ih =>
    obtain ⟨name, st⟩ := fi
    cases st <;> simp [held, ih]

theorem hasFile_append {α : Type} (f : Records α) (name o : String) (st : Stored α) :
    hasFile (f ++ [(name, st)]) o = (hasFile f o || o == name) := by
  unfold hasFile
  rw [lookup_append, lookup_cons]
  cases hl : f.lookup o with
  | some y => rfl
  | none =>
    rw [Option.none_or]
    by_cases hn : o = name
    · simp [hn]
    · simp [beq_false_of_ne hn]

section

variable (format : Format) (auth : Authorization) (permission : ApprovedDependencies)
  (contents : Set Bytes)

/-- The requests among some that have an intent. -/
def attempts (intents : Records Record) (records : List Record) : List Record :=
  records.filter fun record => hasFile intents (path format record.request.requestId)

/-- The requests whose fetch may have been attempted. -/
def Store.attempted (s : Store) : List Record := attempts format s.intents (held s.requests)

/-- What a request asks for. -/
def Record.asked (record : Record) : String × Candidate × UInt64 :=
  (record.request.requestId, record.request.candidate, record.request.maxBytes)

/-- What a permit gives to the request it answers. -/
def given (granted : String × FetchPermit) : String × Candidate × UInt64 :=
  (granted.1, granted.2.candidate, granted.2.maxBytes)

/-- A candidate with an identity was proposed. -/
def Proposed (s : Store) (id : String) : Prop :=
  ∃ record ∈ held s.requests, record.request.candidate.id format.toExternals = .ok id ∧
    hasFile s.proposals (path format record.request.requestId) = true

/-- The operator approved an identity. -/
def Approved (s : Store) (id : String) : Prop := ∃ batch ∈ held s.approved, id ∈ batch.candidateIds

/-- What permits a candidate to be fetched. -/
inductive Licensed (s : Store) (candidate : Candidate) : Prop where
  | lockfile (bytes : Bytes) (hdigest : (Digest.of format.sha256 bytes).toString =
      permission.lockfileDigest) (hentry : Checksummed format.toExternals bytes candidate)
  | preapproved (hmem : candidate ∈ permission.preapproved)
  | operator (id : String) (hid : candidate.id format.toExternals = .ok id)
      (happroved : Approved s id) (hproposed : Proposed format s id)
      (hattended : auth.attendance = .interactive)

/-- Requests and intents under the names of their requests, proposals and approvals only where
an operator can answer, and permits for attempts that stay within the approved scope. -/
structure Sound (s : Store) : Prop where
  keys : (s.requests.map Prod.fst).Nodup
  names : ∀ name record, (name, .whole record) ∈ s.requests →
    name = path format record.request.requestId
  formed : ∀ record ∈ held s.requests, format.json.toVec record.request.candidate ∈ contents
  intents : ∀ name, hasFile s.intents name = true → name ∈ s.requests.map Prod.fst
  unattended : auth.attendance = .unattended → s.proposals = []
  approvals : ∀ id, Approved s id → Proposed format s id ∧ auth.attendance = .interactive
  fetches : (s.attempted format).length ≤ permission.maxFetches.toNat
  bytes : ((s.attempted format).map fun record => record.request.maxBytes.toNat).sum ≤
    permission.maxBytes.toNat
  permits : (s.permits.map given).Subperm ((s.attempted format).map asked)
  licensed : ∀ granted ∈ s.permits, Licensed format auth permission s granted.2.candidate

/-- Each request has a permit at most once, for the candidate that it asked for, the permits
stay within the approved scope, each candidate is licensed, and nothing is proposed where
no operator can answer. -/
structure Safe (s : Store) : Prop where
  once : (s.permits.map Prod.fst).Nodup
  asked : ∀ granted ∈ s.permits, ∃ record ∈ held s.requests,
    record.request.requestId = granted.1 ∧ record.request.candidate = granted.2.candidate
  candidates : ∀ left ∈ held s.requests, ∀ right ∈ held s.requests,
    left.request.requestId = right.request.requestId → left = right
  fetches : s.permits.length ≤ permission.maxFetches.toNat
  bytes : (s.permits.map fun granted => granted.2.maxBytes.toNat).sum ≤ permission.maxBytes.toNat
  licensed : ∀ granted ∈ s.permits, Licensed format auth permission s granted.2.candidate
  unattended : auth.attendance = .unattended → s.proposals = []

theorem sound_empty : Sound format auth permission contents .empty where
  keys := nodup_nil
  names := fun _ _ h => by simp [Store.empty] at h
  formed := forall_mem_nil _
  intents := fun _ h => by simp [Store.empty, hasFile] at h
  unattended := fun _ => rfl
  approvals := fun _ h => by
    obtain ⟨_, hb, -⟩ := h
    simp [Store.empty, held] at hb
  fetches := Nat.zero_le _
  bytes := Nat.zero_le _
  permits := nil_subperm
  licensed := forall_mem_nil _

end

section

variable {format : Format} {auth : Authorization} {pe : ApprovedDependencies}
  {co : Set Bytes} {s : Store}

/-- The names that the readable requests have are those of their files. -/
theorem held_names {r : Records Record} (h : ∀ name record,
    (name, .whole record) ∈ r → name = path format record.request.requestId) :
    ((held r).map fun record => path format record.request.requestId).Sublist (r.map Prod.fst) := by
  induction r with
  | nil => exact .slnil
  | cons f r ih =>
    obtain ⟨name, st⟩ := f
    have hr := ih fun o record hm => h o record (mem_cons_of_mem _ hm)
    cases st with
    | torn => exact hr.cons name
    | whole record =>
      obtain rfl := h name record mem_cons_self
      exact hr.cons_cons _

theorem Sound.paths (h : Sound format auth pe co s) :
    ((held s.requests).map fun record => path format record.request.requestId).Nodup :=
  h.keys.sublist (held_names h.names)

/-- The requests of a store are told apart by their identifiers. -/
theorem Sound.requestIds (h : Sound format auth pe co s) :
    ((held s.requests).map fun record => record.request.requestId).Nodup := by
  have hp : (((held s.requests).map fun record => record.request.requestId).map
      (path format)).Nodup := by
    rw [map_map]
    exact h.paths
  exact hp.of_map _

theorem Sound.safe (h : Sound format auth pe co s) :
    Safe format auth pe s := by
  have hi := h.requestIds
  have ha : (s.attempted format).Sublist (held s.requests) := filter_sublist
  obtain ⟨a, hp, hpa⟩ := h.permits
  have hf : (s.permits.map Prod.fst).Perm (a.map Prod.fst) := by
    simpa [given, Function.comp_def] using (hp.map Prod.fst).symm
  have hk : (a.map Prod.fst).Sublist
      ((held s.requests).map fun record => record.request.requestId) := by
    have hq := (hpa.map Prod.fst).trans ((ha.map asked).map Prod.fst)
    simpa [asked, Function.comp_def] using hq
  refine ⟨hf.nodup_iff.mpr (hi.sublist hk), ?_, ?_, ?_, ?_, h.licensed, h.unattended⟩
  · intro g hg
    have hm : given g ∈ (s.attempted format).map asked :=
      hpa.subset (hp.mem_iff.mpr (mem_map_of_mem hg))
    obtain ⟨record, hc, hs⟩ := mem_map.mp hm
    simp only [asked, given, Prod.mk.injEq] at hs
    exact ⟨record, ha.subset hc, hs.1, hs.2.1⟩
  · intro l hl r hr hs
    exact inj_on_of_nodup_map hi hl hr hs
  · have he := h.permits.length_le
    simp only [length_map] at he
    exact he.trans h.fetches
  · have hgi : (s.permits.map fun g => g.2.maxBytes.toNat).sum =
        (a.map fun asked => asked.2.2.toNat).sum := by
      rw [(hp.map fun asked => asked.2.2.toNat).sum_eq, map_map]
      rfl
    have hsp := (hpa.map fun asked => asked.2.2.toNat).sum_le_sum fun _ _ => Nat.zero_le _
    rw [map_map] at hsp
    exact hgi.trans_le (hsp.trans h.bytes)

end

/-! ### Reading -/

section

variable {format : Format} {auth : Authorization} {s : Store}

/-- The requests that were read are all that there are. -/
theorem checkRecords_ok {c : Nat} {f : Records Record} {rs : List Record}
    (h : checkRecords format auth c f = .ok rs) : rs = held f := by
  induction f generalizing c rs with
  | nil => exact (ok.inj h).symm
  | cons fi f ih =>
    obtain ⟨name, st⟩ := fi
    obtain ⟨-, h⟩ := check_ok.mp h
    obtain ⟨record, he, h⟩ := bind_ok.mp h
    obtain ⟨_, -, h⟩ := bind_ok.mp h
    obtain ⟨-, h⟩ := check_ok.mp h
    obtain ⟨xs, hr, h⟩ := bind_ok.mp h
    obtain rfl := ok.inj h
    obtain rfl := stored_read_ok he
    rw [ih hr, held]

theorem collectApprovals_ok {b : Nat} {ids y : Finset String} {f : Records Approval}
    (h : collectApprovals format auth b ids f = .ok y) :
    ∀ id ∈ y, id ∈ ids ∨ ∃ ba ∈ held f, id ∈ ba.candidateIds := by
  induction f generalizing b ids with
  | nil =>
    obtain rfl := ok.inj h
    exact fun id hi => .inl hi
  | cons fi f ih =>
    obtain ⟨name, st⟩ := fi
    obtain ⟨-, h⟩ := check_ok.mp h
    obtain ⟨ba, hb, h⟩ := bind_ok.mp h
    obtain ⟨-, h⟩ := check_ok.mp h
    obtain ⟨-, h⟩ := check_ok.mp h
    intro id hi
    rw [stored_read_ok hb]
    rcases ih h id hi with he | ⟨l, hl, hm⟩
    · refine (Finset.mem_union.mp he).imp_right fun hn => ?_
      exact ⟨ba, mem_cons_self, mem_toFinset.mp hn⟩
    · exact .inr ⟨l, mem_cons_of_mem _ hl, hm⟩

theorem records_reads : Reads (records format auth) s fun records => records = held s.requests :=
  reads_query fun _ h => checkRecords_ok h

theorem approvals_reads : Reads (approvals format auth) s fun ids => ∀ id ∈ ids, Approved s id :=
  reads_query fun _ h id hi => (collectApprovals_ok h id hi).resolve_left (Finset.notMem_empty id)

theorem directory_reads : Reads (directory auth) s fun _ => True :=
  Reads.bind reads_check fun _ _ => reads_look

theorem attempts_cons (i : Records Record) (record : Record) (rs : List Record) :
    attempts format i (record :: rs) =
      if hasFile i (path format record.request.requestId) then
        record :: attempts format i rs
      else attempts format i rs :=
  filter_cons

theorem approve_count (spe : Spent) (a : Finset String) (id : String)
    (candidate : Candidate) : (spe.approve a id candidate).count = spe.count := by
  unfold Spent.approve
  split <;> rfl

theorem approve_reserved (spe : Spent) (a : Finset String) (id : String)
    (candidate : Candidate) : (spe.approve a id candidate).reserved = spe.reserved := by
  unfold Spent.approve
  split <;> rfl

variable {sp : Spent} {ap : Finset String}

theorem mem_approve {id : String} {candidate o : Candidate}
    (h : o ∈ (sp.approve ap id candidate).preapproved) :
    o ∈ sp.preapproved ∨ candidate = o ∧ id ∈ ap := by
  unfold Spent.approve at h
  split at h
  · next hn =>
    refine (mem_append.mp h).imp_right fun hl => ?_
    exact ⟨(mem_singleton.mp hl).symm, hn.1⟩
  · exact .inl h

theorem reserve_ok {after : Spent} {ha : Bool} {mb : UInt64}
    (h : sp.reserve ha mb = .ok after) : (after.count = sp.count + ha.toNat ∧
      after.reserved = sp.reserved + if ha then mb.toNat else 0) ∧
      after.preapproved = sp.preapproved := by
  unfold Spent.reserve at h
  cases ha with
  | true =>
    obtain ⟨-, h⟩ := check_ok.mp h
    obtain ⟨-, h⟩ := check_ok.mp h
    obtain rfl := ok.inj h
    exact ⟨⟨rfl, rfl⟩, rfl⟩
  | false =>
    obtain rfl := ok.inj h
    exact ⟨⟨rfl, rfl⟩, rfl⟩

/-- What looking through the requests finds: what was attempted, and candidates that were
approved. -/
theorem lookThrough_ok {i : Records Record} {after : Spent} {rs : List Record}
    (h : lookThrough format ap i sp rs = .ok after) :
    after.count = sp.count + (attempts format i rs).length ∧ after.reserved = sp.reserved +
        ((attempts format i rs).map fun record => record.request.maxBytes.toNat).sum ∧
      ∀ candidate ∈ after.preapproved, candidate ∈ sp.preapproved ∨
        ∃ record ∈ rs, record.request.candidate = candidate ∧
          ∃ id ∈ ap, candidate.id format.toExternals = .ok id := by
  induction rs generalizing sp with
  | nil =>
    obtain rfl := ok.inj h
    exact ⟨rfl, rfl, fun _ hm => .inl hm⟩
  | cons p rs ih =>
    obtain ⟨id, hi, h⟩ := bind_ok.mp h
    obtain ⟨t, hn, h⟩ := bind_ok.mp h
    have hi := mapError_ok.mp hi
    obtain ⟨ht, hr, hc⟩ := ih h
    obtain ⟨hf, ha⟩ := reserve_ok hn
    refine ⟨?_, ?_, fun candidate hm => ?_⟩
    · rw [ht, hf.1, approve_count, attempts_cons]
      cases hasFile i (path format p.request.requestId) with
      | true => simp [Nat.add_assoc, Nat.add_comm]
      | false => simp
    · rw [hr, hf.2, approve_reserved, attempts_cons]
      cases hasFile i (path format p.request.requestId) with
      | true => simp [Nat.add_assoc]
      | false => simp
    · rcases hc candidate hm with hb | ⟨record, he, hs, hl⟩
      · rw [ha] at hb
        refine (mem_approve hb).imp_right ?_
        rintro ⟨rfl, hw⟩
        exact ⟨p, mem_cons_self, rfl, id, hw, hi⟩
      · exact .inr ⟨record, mem_cons_of_mem _ he, hs, hl⟩

end

/-! ### What a call may do -/

/-- The calls: one that admits a request, one that records an outcome, and the operator's. -/
inductive Call where
  | admitRequest
  | finish
  | control
deriving DecidableEq

/-- What becomes of a store: files stay, permits are only added, and each kind of file is
written by one kind of call. -/
structure Moves (call : Call) (s s' : Store) : Prop where
  requests : Grows s.requests s'.requests
  intents : Grows s.intents s'.intents
  outcomes : Grows s.outcomes s'.outcomes
  approved : Grows s.approved s'.approved
  permits : s.permits <+: s'.permits
  admits : call ≠ .admitRequest → s'.requests = s.requests ∧ s'.proposals = s.proposals ∧
    s'.intents = s.intents ∧ s'.permits = s.permits
  finishes : call ≠ .finish → s'.outcomes = s.outcomes
  controls : call ≠ .control → s'.approved = s.approved

theorem Moves.refl (call : Call) (s : Store) : Moves call s s where
  requests := .refl _
  intents := .refl _
  outcomes := .refl _
  approved := .refl _
  permits := prefix_refl _
  admits := fun _ => ⟨rfl, rfl, rfl, rfl⟩
  finishes := fun _ => rfl
  controls := fun _ => rfl

theorem Moves.trans {call : Call} {s t u : Store} (h : Moves call s t) (hl : Moves call t u) :
    Moves call s u where
  requests := h.requests.trans hl.requests
  intents := h.intents.trans hl.intents
  outcomes := h.outcomes.trans hl.outcomes
  approved := h.approved.trans hl.approved
  permits := h.permits.trans hl.permits
  admits := fun hc => by
    obtain ⟨hr, hp, hi, he⟩ := h.admits hc
    obtain ⟨hr', hp', hi', he'⟩ := hl.admits hc
    exact ⟨hr'.trans hr, hp'.trans hp, hi'.trans hi, he'.trans he⟩
  finishes := fun hc => (hl.finishes hc).trans (h.finishes hc)
  controls := fun hc => (hl.controls hc).trans (h.controls hc)

section

variable {format : Format} {auth : Authorization} {permission : ApprovedDependencies}
  {contents : Set Bytes} {s s' : Store} {call : Call}

/-- The invariant of a Session's requests, and what a call may make of them. -/
def guard (format : Format) (auth : Authorization) (permission : ApprovedDependencies)
    (contents : Set Bytes) (call : Call) : Guard Store where
  invariant := Sound format auth permission contents
  moves := Moves call
  refl := .refl call
  trans := .trans

theorem Proposed.mono {id : String} (h : Proposed format s id)
    (hr : ∀ record ∈ held s.requests, record ∈ held s'.requests)
    (hp : ∀ name, hasFile s.proposals name = true → hasFile s'.proposals name = true) :
    Proposed format s' id := by
  obtain ⟨record, he, hi, hf⟩ := h
  exact ⟨record, hr record he, hi, hp _ hf⟩

theorem Licensed.mono {candidate : Candidate} (h : Licensed format auth permission s candidate)
    (ha : ∀ id, Approved s id → Approved s' id)
    (hp : ∀ id, Proposed format s id → Proposed format s' id) :
    Licensed format auth permission s' candidate := by
  cases h with
  | lockfile b hd he => exact .lockfile b hd he
  | preapproved hm => exact .preapproved hm
  | operator id hi hi' hp' ht =>
    exact .operator id hi (ha id hi') (hp id hp') ht

variable {n : String}

theorem hasFile_eq_false {α : Type} {f : Records α} (h : f.lookup n = none) :
    hasFile f n = false := by
  simp [hasFile, h]

theorem not_mem_keys {α : Type} {f : Records α} (h : f.lookup n = none) : n ∉ f.map Prod.fst := by
  intro hm
  obtain ⟨fi, hf, rfl⟩ := mem_map.mp hm
  exact absurd rfl (lookup_eq_none_iff.mp h fi hf |> bne_iff_ne.mp)

/-- What a new file adds to the requests that can be read. -/
theorem held_new {α : Type} (f : Records α) (n : String) {st : Stored α} {record : α}
    (hs : st = .torn ∨ st = .whole record) : held (f ++ [(n, st)]) = held f ∨
      held (f ++ [(n, st)]) = held f ++ [record] := by
  rw [held_append]
  rcases hs with rfl | rfl
  · exact .inl (append_nil _)
  · exact .inr rfl

theorem mem_held_new {α : Type} {f : Records α} {st : Stored α} {record : α}
    (h : record ∈ held f) : record ∈ held (f ++ [(n, st)]) := by
  rw [held_append]
  exact mem_append_left _ h

/-- A request file that is new changes nothing of what was attempted. -/
theorem Sound.request (h : Sound format auth permission contents s) (record : Record)
    {st : Stored Record} (ht : st = .torn ∨ st = .whole record)
    (hb : s.requests.lookup (path format record.request.requestId) = none)
    (hf : format.json.toVec record.request.candidate ∈ contents) :
    Sound format auth permission contents
      { s with requests := s.requests ++ [(path format record.request.requestId, st)] } := by
  have he := not_mem_keys hb
  have hu : hasFile s.intents (path format record.request.requestId) = false := by
    by_contra hus
    exact he (h.intents _ (eq_true_of_not_eq_false hus))
  have ha : Store.attempted format
      { s with requests := s.requests ++ [(path format record.request.requestId, st)] } =
        s.attempted format := by
    unfold Store.attempted
    rcases held_new s.requests (path format record.request.requestId) ht with hs | hm
    · rw [hs]
    · rw [hm]
      simp [attempts, filter_append, hu]
  have hp : ∀ id, Proposed format s id → Proposed format
      { s with requests := s.requests ++ [(path format record.request.requestId, st)] } id :=
    fun id hi => hi.mono (fun _ => mem_held_new) fun _ hfi => hfi
  exact {
    keys := by
      rw [map_append, map_singleton]
      refine nodup_append.mpr ⟨h.keys, nodup_singleton _, ?_⟩
      rintro n hn o ho rfl
      have hs : n = path format record.request.requestId := mem_singleton.mp ho
      exact he (hs ▸ hn)
    names := fun n o ho => by
      rcases mem_append.mp ho with hold | hl
      · exact h.names n o hold
      · obtain ⟨rfl, hs⟩ := Prod.mk.inj (mem_singleton.mp hl)
        rcases ht with rfl | rfl
        · cases hs
        · rw [Stored.whole.inj hs]
    formed := fun o ho => by
      rcases held_new s.requests (path format record.request.requestId) ht with hs | hm
      · exact h.formed o (hs ▸ ho)
      · rcases mem_append.mp (hm ▸ ho) with hold | hl
        · exact h.formed o hold
        · rw [mem_singleton.mp hl]
          exact hf
    intents := fun n hn => by
      rw [map_append]
      exact mem_append_left _ (h.intents n hn)
    unattended := h.unattended
    approvals := fun id hi => (h.approvals id hi).imp_left (hp id)
    fetches := (congrArg List.length ha).trans_le h.fetches
    bytes := ha.symm ▸ h.bytes
    permits := ha.symm ▸ h.permits
    licensed := fun g hg =>
      (h.licensed g hg).mono (fun _ hi => hi) hp }

variable {record : Record}

/-- A new intent is one more attempt. -/
theorem attempts_intent {i : Records Record} {rs : List Record} (st : Stored Record)
    (hp : (rs.map fun o => path format o.request.requestId).Nodup) (hm : record ∈ rs)
    (hfr : hasFile i (path format record.request.requestId) = false) :
    (attempts format (i ++ [(path format record.request.requestId, st)]) rs).Perm
      (record :: attempts format i rs) := by
  induction rs with
  | nil => simp at hm
  | cons x xs ih =>
    obtain ⟨hf, hr⟩ := nodup_cons.mp hp
    rw [attempts_cons, attempts_cons, hasFile_append]
    rcases mem_cons.mp hm with rfl | hl
    · have hs : attempts format (i ++ [(path format record.request.requestId, st)]) xs =
          attempts format i xs := by
        refine filter_congr fun o ho => ?_
        rw [hasFile_append]
        have hn : path format o.request.requestId ≠ path format record.request.requestId :=
          fun heq => hf (mem_map.mpr ⟨o, ho, heq⟩)
        rw [beq_false_of_ne hn, Bool.or_false]
      simp [hfr, hs]
    · have hn : path format x.request.requestId ≠ path format record.request.requestId :=
        fun heq => hf (mem_map.mpr ⟨record, hl, heq.symm⟩)
      rw [beq_false_of_ne hn, Bool.or_false]
      split
      · exact ((ih hr hl).cons x).trans (.swap record x _)
      · exact ih hr hl

/-- An intent that fits into what is left of the scope. -/
theorem Sound.intent (h : Sound format auth permission contents s)
    (st : Stored Record) (he : record ∈ held s.requests)
    (hs : s.intents.lookup (path format record.request.requestId) = none)
    (hf : (s.attempted format).length < permission.maxFetches.toNat)
    (hb : ((s.attempted format).map fun record => record.request.maxBytes.toNat).sum +
      record.request.maxBytes.toNat ≤ permission.maxBytes.toNat) :
    Sound format auth permission contents
      { s with intents := s.intents ++ [(path format record.request.requestId, st)] } := by
  have ha := attempts_intent st h.paths he (hasFile_eq_false hs)
  exact { h with
    intents := fun n hn => by
      rw [hasFile_append, or_eq_true] at hn
      rcases hn with hold | hl
      · exact h.intents n hold
      · obtain ⟨n, hfi⟩ := mem_held.mp he
        rw [beq_iff_eq.mp hl, ← h.names n record hfi]
        exact mem_map_of_mem (f := Prod.fst) hfi
    fetches := by
      refine ha.length_eq.trans_le ?_
      rw [length_cons]
      exact hf
    bytes := by
      refine (ha.map fun record => record.request.maxBytes.toNat).sum_eq.trans_le ?_
      rw [map_cons, sum_cons, Nat.add_comm]
      exact hb
    permits := by
      have hm := (ha.map asked).subperm_left (l := s.permits.map given)
      refine hm.mpr (h.permits.trans ?_)
      exact (sublist_cons_self _ _).subperm
    licensed := fun g hg =>
      (h.licensed g hg).mono (fun _ hi => hi) fun _ hi => hi }

/-- The permit for an attempt that has none. -/
theorem Sound.permit (h : Sound format auth permission contents s) {p : FetchPermit}
    (hp : (given (record.request.requestId, p) :: s.permits.map given).Subperm
    ((s.attempted format).map asked))
    (hl : Licensed format auth permission s p.candidate) : Sound format auth permission contents
      { s with permits := s.permits ++ [(record.request.requestId, p)] } :=
  { h with
    permits := by
      have he : (s.permits.map given ++ [given (record.request.requestId, p)]).Perm
          (given (record.request.requestId, p) :: s.permits.map given) :=
        perm_append_singleton _ _
      rw [map_append, map_singleton]
      exact he.subperm_right.mpr hp
    licensed := fun g hg => by
      have hb : Licensed format auth permission s g.2.candidate := by
        rcases mem_append.mp hg with hold | ha
        · exact h.licensed g hold
        · rw [mem_singleton.mp ha]
          exact hl
      exact hb.mono (fun _ hi => hi) fun _ hi => hi }

theorem Sound.proposal (h : Sound format auth permission contents s) (f : String × Stored Record)
    (ha : auth.attendance ≠ .unattended) :
    Sound format auth permission contents { s with proposals := s.proposals ++ [f] } := by
  have hp : ∀ id, Proposed format s id →
      Proposed format { s with proposals := s.proposals ++ [f] } id :=
    fun id hi => hi.mono (fun _ hm => hm) fun n hn => by
      obtain ⟨o, st⟩ := f
      rw [hasFile_append, hn, Bool.true_or]
  exact { h with
    unattended := fun ho => absurd ho ha
    approvals := fun id hi => (h.approvals id hi).imp_left (hp id)
    licensed := fun g hg =>
      (h.licensed g hg).mono (fun _ hi => hi) hp }

/-- A batch of proposals. -/
theorem Sound.approval (h : Sound format auth permission contents s) {st : Stored Approval}
    {b : Approval} (ht : st = .torn ∨ st = .whole b)
    (hp : ∀ id ∈ b.candidateIds, Proposed format s id) (ha : auth.attendance = .interactive) :
    Sound format auth permission contents { s with approved := s.approved ++ [(n, st)] } :=
  { h with
    approvals := fun id hi => by
      obtain ⟨o, ho, he⟩ := hi
      rcases held_new s.approved n ht with hs | hm
      · exact h.approvals id ⟨o, hs ▸ ho, he⟩
      · rcases mem_append.mp (hm ▸ ho) with hold | hl
        · exact h.approvals id ⟨o, hold, he⟩
        · rw [mem_singleton.mp hl] at he
          exact ⟨hp id he, ha⟩
    licensed := fun g hg => by
      refine (h.licensed g hg).mono (fun id hi => ?_) fun _ hi => hi
      obtain ⟨o, ho, he⟩ := hi
      exact ⟨o, mem_held_new ho, he⟩ }

/-- What an admission returns for a request. -/
def Answers (request : DependencyRequest) (admission : Admission) (s : Store) : Prop :=
  ∀ permit record, admission = .fetch permit record →
    record.request = request ∧ (request.requestId, permit) ∈ s.permits

theorem answers_status (r : DependencyRequest) (stt : DependencyStatus) (s : Store) :
    Answers r (.status stt) s := fun _ _ h => by simp at h

variable {req : DependencyRequest}

theorem bindRequest_keeps (h : Sound format auth permission contents s)
    (hf : format.json.toVec req.candidate ∈ contents) :
    (guard format auth permission contents .admitRequest).Keeps (bindRequest format auth req) s
      fun record s' => record ∈ held s'.requests ∧ record.request = req := by
  refine read_reads.keeps_bind h fun found ho => ?_
  cases found with
  | some record =>
    refine (reads_ofExcept (Q := fun _ => record.request = req) ?_).keeps_bind h ?_
    · intro _ hk
      have hb := require_ok.mp hk
      simp only [and_eq_true, beq_iff_eq] at hb
      exact hb.2
    · intro _ hs
      exact keeps_pure h ⟨mem_held.mpr ⟨_, mem_of_lookup ho⟩, hs⟩
  | none =>
    refine records_reads.keeps_bind h fun _ _ => ?_
    refine reads_check.keeps_bind h ?_
    intro _ _
    refine Keeps.bind (create_keeps h fun stored ha ht => ?_) ?_
    · refine ⟨h.request ⟨auth.authorizationId, req⟩ ht ha hf, ?_⟩
      exact { Moves.refl .admitRequest s with
        requests := grows_append _ _
        admits := fun hc => absurd rfl hc }
    · rintro _ s' hs' - ⟨-, rfl⟩
      refine keeps_pure hs' ⟨mem_held.mpr ⟨path format req.requestId, ?_⟩, rfl⟩
      exact mem_append_right _ (mem_singleton_self _)

theorem propose_keeps (h : Sound format auth permission contents s) (record : Record)
    (ci : String) (ha : auth.attendance ≠ .unattended) :
    (guard format auth permission contents .admitRequest).Keeps (propose format record ci) s
      (Answers record.request) := by
  refine reads_observe.keeps_bind h fun p _ => ?_
  split
  · exact keeps_pure h (answers_status _ _ _)
  · refine Keeps.bind (create_keeps h fun st _ _ => ?_) ?_
    · exact ⟨h.proposal _ ha, { Moves.refl .admitRequest s with admits := fun hc => absurd rfl hc }⟩
    · exact fun _ s' hs' _ _ => keeps_pure hs' (answers_status _ _ _)

theorem issue_keeps (h : Sound format auth permission contents s) {p : FetchPermit}
    (hm : record ∈ held s.requests) (hf : (s.attempted format).length < permission.maxFetches.toNat)
    (hb : ((s.attempted format).map fun record => record.request.maxBytes.toNat).sum +
    record.request.maxBytes.toNat ≤ permission.maxBytes.toNat)
    (hp : p.candidate = record.request.candidate ∧ p.maxBytes = record.request.maxBytes)
    (hl : Licensed format auth permission s p.candidate) :
    (guard format auth permission contents .admitRequest).Keeps (issue format record p) s
      (Answers record.request) := by
  have hg : given (record.request.requestId, p) = record.asked := by
    simp [given, asked, hp]
  refine Keeps.bind (create_keeps h fun st hs _ => ?_) ?_
  · refine ⟨h.intent st hm hs hf hb, ?_⟩
    exact { Moves.refl .admitRequest s with
      intents := grows_append _ _
      admits := fun hc => absurd rfl hc }
  · rintro _ t ht - ⟨hs, rfl⟩
    have ha := attempts_intent (.whole record) h.paths hm (hasFile_eq_false hs)
    refine Keeps.bind (keeps_effect ht ⟨ht.permit ?_ ?_, ?_⟩) ?_
    · refine ((ha.map asked).subperm_left).mpr ?_
      rw [hg]
      exact (subperm_cons _).mpr h.permits
    · exact hl.mono (fun _ hi => hi) fun _ hi => hi
    · exact { Moves.refl .admitRequest _ with
        permits := prefix_append _ _
        admits := fun hc => absurd rfl hc }
    · rintro _ s' hs' - rfl
      refine keeps_pure hs' fun _ _ hd => ?_
      obtain ⟨rfl, rfl⟩ := Admission.fetch.inj hd
      exact ⟨rfl, mem_append_right _ (mem_singleton_self _)⟩

variable {lo : Bytes} {sta : StartingLockfile} {nowMs : UInt64}

/-- What the check of a candidate leaves to be fetched is licensed. -/
theorem licensed_of_consider (h : Sound format auth permission contents s)
    (hf : CollisionFree format.sha256 contents)
    (hp : ∀ candidate ∈ permission.preapproved, format.json.toVec candidate ∈ contents)
    {spe : Spent} {a ids : Finset String} {own after : DependencySession} {candidate : Candidate}
    (hca : format.json.toVec candidate ∈ contents) (hl : cargo format.toExternals lo = .ok sta)
    (hd : sta.digest = permission.lockfileDigest) (ha : ∀ id ∈ a, Approved s id)
    (hsp : lookThrough format a s.intents ⟨permission.preapproved, ids, 0, 0⟩ (held s.requests) =
    .ok spe)
    (hw : DependencySession.new format.toExternals (policyOf auth permission sta spe.preapproved)
    nowMs = .ok own)
    (hc : own.consider format.toExternals candidate nowMs = .ok (.authorized, after)) :
    Licensed format auth permission s candidate := by
  obtain ⟨hpol, hap⟩ := new_ok hw
  obtain ⟨id, hi, hal⟩ := consider_ok hc
  obtain ⟨hn, hes⟩ := cargo_ok hl
  rcases hal with hm | ⟨hu, he⟩
  · obtain ⟨o, ho, hs⟩ := hap id hm
    rcases (lookThrough_ok hsp).2.2 o ho with hbef | ⟨record, hrec, rfl, f⟩
    · obtain rfl := id_inj hf hca (hp o hbef) hi hs
      exact .preapproved hbef
    · obtain ⟨bi, hb, hbi⟩ := f
      obtain rfl : id = bi := ok.inj (hs.symm.trans hbi)
      obtain ⟨hr, ht⟩ := h.approvals id (ha id hb)
      exact .operator id hi (ha id hb) hr ht
  · rw [hpol] at he
    exact .lockfile lo (hn.symm.trans hd) (hes candidate he hu)

theorem decideFetch_keeps (h : Sound format auth permission contents s)
    (hfr : CollisionFree format.sha256 contents)
    (hp : ∀ candidate ∈ permission.preapproved, format.json.toVec candidate ∈ contents)
    (hm : record ∈ held s.requests) (hl : cargo format.toExternals lo = .ok sta)
    (hd : sta.digest = permission.lockfileDigest) :
    (guard format auth permission contents .admitRequest).Keeps
      (decideFetch format auth permission sta record nowMs) s (Answers record.request) := by
  refine records_reads.keeps_bind h ?_
  rintro _ rfl
  refine approvals_reads.keeps_bind h fun approved hap => ?_
  refine reads_check.keeps_bind h ?_
  intro ids _
  refine (reads_query fun spent hs => hs).keeps_bind h fun spent hs => ?_
  refine (reads_ofExcept fun owner hn => mapError_ok.mp hn).keeps_bind h fun owner hn => ?_
  refine (reads_ofExcept fun result he => mapError_ok.mp he).keeps_bind h ?_
  rintro ⟨decision, after⟩ hc
  cases decision with
  | pending candidateId =>
    obtain ⟨id, -, -, ha⟩ := consider_ok hc
    rw [(new_ok hn).1] at ha
    exact propose_keeps h record candidateId ha
  | denied => exact keeps_pure h (answers_status _ _ _)
  | authorized =>
    dsimp only
    split
    · exact keeps_pure h (answers_status _ _ _)
    · next hr =>
      refine (reads_ofExcept fun result he => mapError_ok.mp he).keeps_bind h ?_
      rintro ⟨permit, rest⟩ hb
      obtain ⟨hca, hmb⟩ := beginFetch_ok hb
      obtain ⟨ht, hre, -⟩ := lookThrough_ok hs
      have hi := licensed_of_consider h hfr hp (h.formed record hm) hl hd hap hs hn hc
      rw [ht, hre] at hr
      have hf : (s.attempted format).length < permission.maxFetches.toNat := by
        unfold Store.attempted
        omega
      refine issue_keeps h hm hf ?_ ⟨hca, hmb⟩ (hca ▸ hi)
      unfold Store.attempted
      omega

theorem admit_keeps (h : Sound format auth permission contents s)
    (hr : CollisionFree format.sha256 contents)
    (hp : ∀ candidate ∈ permission.preapproved, format.json.toVec candidate ∈ contents)
    (he : auth.dependencies = some permission) (hl : cargo format.toExternals lo = .ok sta)
    (ho : format.json.toVec req.candidate ∈ contents) :
    (guard format auth permission contents .admitRequest).Keeps
      (admitRequest format auth sta req nowMs) s (Answers req) := by
  refine (reads_ofExcept (Q := fun f => f = permission) ?_).keeps_bind h ?_
  · intro f hf
    rw [he] at hf
    exact (ok.inj hf).symm
  rintro _ rfl
  refine reads_check.keeps_bind h ?_
  intro _ _
  refine reads_check.keeps_bind h ?_
  intro _ _
  refine (reads_ofExcept fun _ hk => beq_iff_eq.mp (require_ok.mp hk)).keeps_bind h fun _ hd => ?_
  refine directory_reads.keeps_bind h fun _ _ => ?_
  refine (bindRequest_keeps h ho).bind ?_
  rintro record t ht - ⟨hm, rfl⟩
  refine read_reads.keeps_bind ht fun o _ => ?_
  cases o with
  | some stt =>
    refine reads_check.keeps_bind ht ?_
    exact fun _ _ => keeps_pure ht (answers_status _ _ _)
  | none =>
    refine reads_observe.keeps_bind ht fun a _ => ?_
    split
    · exact keeps_pure ht (answers_status _ _ _)
    · exact decideFetch_keeps ht hr hp hm hl hd

theorem finish_keeps (h : Sound format auth permission contents s) (record : Record)
    (stt : DependencyStatus) :
    (guard format auth permission contents .finish).Keeps (finish format auth record stt) s
      fun _ _ => True := by
  refine reads_check.keeps_bind h ?_
  intro _ _
  refine reads_observe.keeps_bind h fun a _ => ?_
  refine reads_check.keeps_bind h ?_
  intro _ _
  refine (create_keeps h fun st _ _ => ?_).mono fun _ _ _ _ _ => trivial
  refine ⟨{ h with licensed := fun g hg => ?_ }, ?_⟩
  · exact (h.licensed g hg).mono (fun _ hi => hi) fun _ hi => hi
  · exact { Moves.refl .finish s with
      outcomes := grows_append _ _
      finishes := fun hc => absurd rfl hc }

variable {pr : List (String × Candidate)}

/-- What a list of proposals has was proposed. -/
theorem proposalsOf_ok {f : Records Record} {rs : List Record}
    (h : proposalsOf format f rs = .ok pr) : ∀ id ∈ pr.map Prod.fst, ∃ record ∈ rs,
      record.request.candidate.id format.toExternals = .ok id ∧
        hasFile f (path format record.request.requestId) = true := by
  induction rs generalizing pr with
  | nil =>
    obtain rfl := ok.inj h
    exact forall_mem_nil _
  | cons record rs ih =>
    obtain ⟨id, hd, h⟩ := bind_ok.mp h
    obtain ⟨xs, hr, h⟩ := bind_ok.mp h
    have hd := mapError_ok.mp hd
    have hl : ∀ o ∈ xs.map Prod.fst, ∃ held ∈ record :: rs,
        held.request.candidate.id format.toExternals = .ok o ∧
          hasFile f (path format held.request.requestId) = true := by
      intro o ho
      obtain ⟨y, hfo, hb⟩ := ih hr o ho
      exact ⟨y, mem_cons_of_mem _ hfo, hb⟩
    split at h
    · next hf =>
      obtain rfl := ok.inj h
      simp only [and_eq_true] at hf
      intro o ho
      obtain ⟨x, hi, rfl⟩ := mem_map.mp ho
      rcases (mem_orderedInsert _).mp hi with rfl | hold
      · exact ⟨record, mem_cons_self, hd, hf.1⟩
      · exact hl x.1 (mem_map_of_mem (mem_of_mem_filter hold))
    · obtain rfl := ok.inj h
      exact hl

theorem approveBatch_keeps (h : Sound format auth permission contents s) (ids : List String)
    (hp : ∀ id ∈ pr.map Prod.fst, Proposed format s id) :
    (guard format auth permission contents .control).Keeps
      (approveBatch format auth pr ids) s fun _ _ => True := by
  refine (reads_ofExcept (Q := fun _ =>
    auth.attendance = .interactive ∧ ∀ id ∈ ids, id ∈ pr.map Prod.fst) ?_).keeps_bind h ?_
  · intro _ ho
    have hl := require_ok.mp ho
    simp only [and_eq_true, beq_iff_eq, all_eq_true, contains_iff_mem] at hl
    exact ⟨hl.1.1.1.1, hl.2⟩
  · rintro _ ⟨ha, hm⟩
    refine reads_observe.keeps_bind h fun p _ => ?_
    have hs : ∀ t, Sound format auth permission contents t →
        (guard format auth permission contents .control).Keeps
          (query (fun _ => .ok ()) .storage : Program Store BrokerError Unit) t fun _ _ => True :=
      fun t ht => (keeps_reads ht (reads_query (Q := fun _ => True)
        fun _ _ => trivial)).mono fun _ _ _ _ _ => trivial
    split
    · exact hs s h
    · refine (create_keeps h fun st _ hst => ?_).bind fun _ t ht _ _ => hs t ht
      refine ⟨h.approval hst (fun id hi => hp id (hm id hi)) ha, ?_⟩
      exact { Moves.refl .control s with
        approved := grows_append _ _
        controls := fun hc => absurd rfl hc }

theorem control_keeps (h : Sound format auth permission contents s) (operatorUid : UInt32)
    (candidateIds : Option (List String)) (nowMs : UInt64) :
    (guard format auth permission contents .control).Keeps
      (control format auth operatorUid candidateIds nowMs) s fun _ _ => True := by
  refine reads_check.keeps_bind h ?_
  intro _ _
  refine reads_check.keeps_bind h ?_
  intro granted _
  refine reads_check.keeps_bind h ?_
  intro _ _
  refine directory_reads.keeps_bind h fun _ _ => ?_
  refine records_reads.keeps_bind h ?_
  rintro _ rfl
  refine approvals_reads.keeps_bind h fun approved _ => ?_
  refine Reads.keeps_bind (reads_query fun _ ho => proposalsOf_ok ho) h ?_
  intro pr hp
  cases candidateIds with
  | none => exact keeps_pure h trivial
  | some ids =>
    refine (approveBatch_keeps h ids hp).bind fun _ t ht _ _ => ?_
    exact keeps_pure ht trivial

end

/-! ### Runs -/

/-- A call on one Session's requests, with the operations at which it fails or stops. -/
inductive Event where
  | admitRequest (lockfile : Bytes) (request : DependencyRequest) (nowMs : UInt64)
        (faults : List Fault)
  | finish (record : Record) (status : DependencyStatus) (faults : List Fault)
  | control (operatorUid : UInt32) (candidateIds : Option (List String)) (nowMs : UInt64)
    (faults : List Fault)

namespace Event

def call : Event → Call
  | admitRequest .. => .admitRequest
  | finish .. => .finish
  | control .. => .control

def faults : Event → List Fault
  | admitRequest _ _ _ faults => faults
  | finish _ _ faults => faults
  | control _ _ _ faults => faults

/-- The program of a call, which reads the starting lockfile first where it admits. -/
def program (format : Format) (auth : Authorization) :
    Event → Program Store BrokerError (Option Admission)
  | admitRequest lockfile request nowMs _ => do
    let starting ← ofExcept ((cargo format.toExternals lockfile).mapError .policy)
    let admission ← Dependencies.admitRequest format auth starting request nowMs
    return some admission
  | finish record status _ => do
    Dependencies.finish format auth record status
    return none
  | control operatorUid candidateIds nowMs _ => do
    let _ ← Dependencies.control format auth operatorUid candidateIds nowMs
    return none

/-- A candidate that is asked for is among the contents that are considered. -/
def Formed (format : Format) (contents : Set Bytes) : Event → Prop
  | admitRequest _ request _ _ => format.json.toVec request.candidate ∈ contents
  | finish .. => True
  | control .. => True

/-- What a call returns is right. -/
def Done : Event → Option Admission → Store → Prop
  | admitRequest _ request _ _, some admission, s => Answers request admission s
  | _, _, _ => True

end Event

section

variable (format : Format) (auth : Authorization)

/-- The store that a call leaves. -/
def step (s : Store) (event : Event) : Store := (event.program format auth).leaves event.faults s

/-- A call does what it may, and what it returns is right. -/
def Follows (s : Store) (event : Event) : Prop :=
  Moves event.call s (step format auth s event) ∧
    ∀ reply, (event.program format auth event.faults s).1 = .value reply →
      event.Done reply (step format auth s event)

variable {format auth} {per : ApprovedDependencies} {con : Set Bytes} {s : Store} {e : Event}

theorem program_keeps (h : Sound format auth per con s) (hr : CollisionFree format.sha256 con)
    (hp : ∀ candidate ∈ per.preapproved, format.json.toVec candidate ∈ con)
    (he : auth.dependencies = some per) (hf : e.Formed format con) :
    (guard format auth per con e.call).Keeps (e.program format auth) s
      e.Done := by
  cases e with
  | admitRequest l r nowMs fs =>
    refine (reads_ofExcept fun st ho => mapError_ok.mp ho).keeps_bind h fun st hl => ?_
    refine (admit_keeps h hr hp he hl hf).bind ?_
    exact fun a t ht _ ha => keeps_pure ht ha
  | finish record stt fs =>
    refine (finish_keeps h record stt).bind ?_
    exact fun _ t ht _ _ => keeps_pure ht trivial
  | control ou ci nowMs fs =>
    refine (control_keeps h ou ci nowMs).bind ?_
    exact fun _ t ht _ _ => keeps_pure ht trivial

theorem Sound.step (h : Sound format auth per con s) (hfr : CollisionFree format.sha256 con)
    (hp : ∀ candidate ∈ per.preapproved, format.json.toVec candidate ∈ con)
    (he : auth.dependencies = some per) (hf : e.Formed format con) :
    Sound format auth per con (step format auth s e) ∧ Follows format auth s e := by
  have hk := program_keeps h hfr hp he hf
  obtain ⟨hs, hm⟩ := hk.leaves e.faults
  exact ⟨hs, hm, fun r hr => hk.value_of hr⟩

end

/-- A lockfile with one registry package, whatever the text. -/
def sampleFormat : Format where
  sha256 := fun bytes => Vector.replicate 32 (bytes.foldl (· + ·) 0)
  json := Compact.format
  semver := some
  toml := fun _ => some ⟨4, [⟨"serde", "1.0.0",
    some "registry+https://github.com/rust-lang/crates.io-index",
    some "0000000000000000000000000000000000000000000000000000000000000000"⟩]⟩
  transport := fun _ => true
  recordBytes := fun _ => 0
  statusBytes := fun _ => 0
  approvalBytes := fun _ => 0
  grantBytes := fun _ => 0

/-- The package of the sample. -/
def sampleCandidate : Candidate where
  name := "serde"
  version := "1.0.0"
  source := .registry "crates-io"
  integrity := some "sha256:0000000000000000000000000000000000000000000000000000000000000000"

def samplePermission : ApprovedDependencies where
  inputManifestDigest := "sha256:0000000000000000000000000000000000000000000000000000000000000000"
  lockfilePath := "Cargo.lock"
  lockfileDigest := "sha256:0000000000000000000000000000000000000000000000000000000000000000"
  registries := []
  preapproved := []
  maxFetches := 1
  maxBytes := 10
  expiresAtMs := 9

def sampleAuthorization : Authorization where
  authorizationId := "a"
  sessionId := "s"
  runId := "r"
  envelopeRevision := 1
  controllerUid := 7
  attendance := .unattended
  dependencies := some samplePermission

/-- A crash after the intent, and the same request again. -/
def sampleEvents : List Event :=
  [.admitRequest [] ⟨"q", sampleCandidate, 4⟩ 5 [], .admitRequest [] ⟨"q", sampleCandidate, 4⟩ 5 []]

example : (sampleEvents.foldl (step sampleFormat sampleAuthorization) .empty).permits =
    [("q", ⟨sampleCandidate, 4, 9⟩)] := by
  decide +kernel

end Louiselm.Broker.Dependencies
