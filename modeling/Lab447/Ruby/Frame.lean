import Lab447.Ruby.System

/-!
What the sequencer and the actions of the L1 leave alone. Coherence sees of a
line only its state and permission in the caches and the state of its TBE; five
actions add or remove entries and TBEs, and no other action changes any of this.
-/

namespace Ruby

open Script

def Entry.coherence (e : Entry) : State × AccessPermission := (e.cacheState, e.permission)

/-- A packet without its data, which is what stays the same when data is put
into it. -/
def Packet.blank (p : Packet) : Packet := { p with data := [] }

namespace Controller

/-- What coherence sees of a line in one of the caches. -/
def shape (c : Controller) (side : CacheSide) (a : Addr) : Option (State × AccessPermission) :=
  (c.lookup side a).map Entry.coherence

def tbeState (c : Controller) (a : Addr) : Option State := (c.tbes a).map TBE.tbeState

variable {c c' c'' : Controller} {side : CacheSide} {k : CacheMemory}

/-! ### One cache of the two -/

theorem cache_setCache (c : Controller) (side side' : CacheSide) (k : CacheMemory) :
    (c.setCache side k).cache side' = if side' = side then k else c.cache side' := by
  cases side <;> cases side' <;> rfl

@[simp] theorem version_setCache : (c.setCache side k).version = c.version := by cases side <;> rfl

@[simp] theorem tbes_setCache : (c.setCache side k).tbes = c.tbes := by cases side <;> rfl

@[simp] theorem tbeState_setCache : (c.setCache side k).tbeState = c.tbeState := by
  cases side <;> rfl

@[simp] theorem sequencer_setCache : (c.setCache side k).sequencer = c.sequencer := by
  cases side <;> rfl

@[simp] theorem mandatoryQueue_setCache :
    (c.setCache side k).mandatoryQueue = c.mandatoryQueue := by cases side <;> rfl

@[simp] theorem optionalQueue_setCache :
    (c.setCache side k).optionalQueue = c.optionalQueue := by cases side <;> rfl

@[simp] theorem requestL1NetworkOut_setCache :
    (c.setCache side k).requestL1NetworkOut = c.requestL1NetworkOut := by cases side <;> rfl

@[simp] theorem responseL1NetworkOut_setCache :
    (c.setCache side k).responseL1NetworkOut = c.responseL1NetworkOut := by cases side <;> rfl

@[simp] theorem unblockNetworkOut_setCache :
    (c.setCache side k).unblockNetworkOut = c.unblockNetworkOut := by cases side <;> rfl

theorem lookup_modifyEntry (c : Controller) (side side' : CacheSide) (a b : Addr)
    (f : Entry → Entry) :
    (c.modifyEntry side a f).lookup side' b =
      if side' = side ∧ b = a then (c.lookup side' b).map f else c.lookup side' b := by
  unfold lookup modifyEntry
  rw [cache_setCache]
  by_cases hs : side' = side
  · subst hs
    simp
  · simp [hs]

/-! ### The sequencer -/

/-- The sequencer may have changed its own tables, the queue, and the data and
locks of lines; everything else is as it was. -/
structure Served (c c' : Controller) : Prop where
  version : c'.version = c.version
  shape : c'.shape = c.shape
  tbes : c'.tbes = c.tbes
  optionalQueue : c'.optionalQueue = c.optionalQueue
  requestOut : c'.requestL1NetworkOut = c.requestL1NetworkOut
  responseOut : c'.responseL1NetworkOut = c.responseL1NetworkOut
  unblockOut : c'.unblockNetworkOut = c.unblockNetworkOut

theorem Served.refl (c : Controller) : Served c c := ⟨rfl, rfl, rfl, rfl, rfl, rfl, rfl⟩

theorem Served.trans (h : Served c c') (h' : Served c' c'') : Served c c'' :=
  ⟨h'.version.trans h.version, h'.shape.trans h.shape, h'.tbes.trans h.tbes,
    h'.optionalQueue.trans h.optionalQueue, h'.requestOut.trans h.requestOut,
    h'.responseOut.trans h.responseOut, h'.unblockOut.trans h.unblockOut⟩

theorem Served.tbeState (h : Served c c') : c'.tbeState = c.tbeState := by
  funext a
  rw [Controller.tbeState, Controller.tbeState, h.tbes]

variable {f : Entry → Entry}

theorem shape_modifyEntry {a : Addr} (hf : ∀ e, (f e).coherence = e.coherence) :
    (c.modifyEntry side a f).shape = c.shape := by
  funext side' b
  unfold shape
  rw [lookup_modifyEntry]
  split
  · rw [Option.map_map]
    exact congrArg (fun g => Option.map g (c.lookup side' b)) (funext hf)
  · rfl

theorem served_modifyEntry (side : CacheSide) (a : Addr) (hf : ∀ e, (f e).coherence = e.coherence) :
    Served c (c.modifyEntry side a f) :=
  ⟨by simp [modifyEntry], shape_modifyEntry hf, by simp [modifyEntry], by simp [modifyEntry],
    by simp [modifyEntry], by simp [modifyEntry], by simp [modifyEntry]⟩

theorem served_llscClearMonitor (a : Addr) : Served c (c.llscClearMonitor a) :=
  served_modifyEntry .dcache a fun _ => rfl

theorem sequencer_modifyEntry {a : Addr} :
    (c.modifyEntry side a f).sequencer = c.sequencer := by simp [modifyEntry]

theorem mandatoryQueue_modifyEntry {a : Addr} :
    (c.modifyEntry side a f).mandatoryQueue = c.mandatoryQueue := by simp [modifyEntry]

variable {cfg : Config} {a : Addr} {r : SequencerRequest} {rs : List SequencerRequest}

/-- A callback hands over the packet, with some data. -/
theorem hitCallback_ok {success : Bool} (h : hitCallback cfg side a success r c = .ok c') :
    Served c c' ∧ c'.mandatoryQueue = c.mandatoryQueue ∧ ∃ data, c'.sequencer =
      { c.sequencer with
        hitCallbacks := c.sequencer.hitCallbacks ++ [{ r.pkt with data := data }] } := by
  have hit (c₁ : Controller) (pkt : Packet) : Served c₁ (c₁.rubyHitCallback pkt) :=
    ⟨rfl, rfl, rfl, rfl, rfl, rfl, rfl⟩
  have lock : Served c (c.llscLoadLinked (makeLineAddress cfg r.pkt.addr)) :=
    served_modifyEntry _ _ fun _ => rfl
  have store : Served c (c.modifyEntry side a fun e =>
      { e with dataBlk := e.dataBlk.setData r.pkt.data (getOffset cfg r.pkt.addr) }) :=
    served_modifyEntry _ _ fun _ => rfl
  unfold hitCallback at h
  split at h
  · cases h
  · cases ht : r.type <;> simp only [ht] at h
    case LoadLinked =>
      cases h
      exact ⟨lock.trans (hit _ _), by simp [rubyHitCallback, llscLoadLinked, modifyEntry], _,
        by simp only [rubyHitCallback, llscLoadLinked, sequencer_modifyEntry]; rfl⟩
    case StoreConditional =>
      cases success
      · cases h
        exact ⟨hit _ _, rfl, r.pkt.data, rfl⟩
      · cases h
        exact ⟨store.trans (hit _ _), by simp [rubyHitCallback, modifyEntry], r.pkt.data,
          by simp only [rubyHitCallback, if_true, sequencer_modifyEntry]⟩
    case ST | LockedRMWWrite =>
      cases h
      exact ⟨store.trans (hit _ _), by simp [rubyHitCallback, modifyEntry], r.pkt.data,
        by simp only [rubyHitCallback, sequencer_modifyEntry]⟩
    all_goals
      cases h
      exact ⟨hit _ _, rfl, _, rfl⟩

variable {pkt : Packet}

theorem recordBC_ok (h : c.recordBC a pkt = .ok c') :
    c.sequencer.bcRecord a = none ∧ c' = { c with sequencer := { c.sequencer with
      bcRecord := Function.update c.sequencer.bcRecord a (some pkt) } } := by
  unfold recordBC at h
  split at h
  · rename_i hnone
    cases h
    exact ⟨hnone, rfl⟩
  · cases h

/-- Issuing a request enqueues it, and records it if it is a broadcast. -/
theorem issueRequest_ok {type : RubyRequestType} (h : issueRequest cfg pkt type c = .ok c') :
    Served c c' ∧ c'.mandatoryQueue = c.mandatoryQueue.enqueue (request cfg pkt type) ∧
      c'.sequencer = { c.sequencer with
        bcRecord := if pkt.isBroadcast then
            Function.update c.sequencer.bcRecord pkt.addr (some pkt)
          else c.sequencer.bcRecord } := by
  unfold issueRequest at h
  split at h
  · rename_i hb
    obtain ⟨c₁, h₁, rfl⟩ := map_eq_ok.mp h
    obtain ⟨-, rfl⟩ := recordBC_ok h₁
    exact ⟨⟨rfl, rfl, rfl, rfl, rfl, rfl, rfl⟩, rfl, by simp [enqueueMandatory, hb]⟩
  · rename_i hb
    cases h
    exact ⟨⟨rfl, rfl, rfl, rfl, rfl, rfl, rfl⟩, rfl, by simp [enqueueMandatory, hb]⟩

theorem insertRequest_served {primary secondary : RubyRequestType} :
    Served c (insertRequest cfg pkt primary secondary c).2 := ⟨rfl, rfl, rfl, rfl, rfl, rfl, rfl⟩

/-- A request that is accepted goes into the table, and is issued if it is the
only one for its line. -/
theorem makeRequest_cases {status : RequestStatus} (h : makeRequest cfg pkt c = .ok (status, c')) :
    status ≠ .Issued ∧ c' = c ∨
      status = .Issued ∧ ∃ primary secondary, requestTypes pkt = .ok (primary, secondary) ∧
        (c.sequencer.requestTable (makeLineAddress cfg pkt.addr) ≠ [] ∧
            c' = (insertRequest cfg pkt primary secondary c).2 ∨
          c.sequencer.requestTable (makeLineAddress cfg pkt.addr) = [] ∧
            issueRequest cfg pkt secondary (insertRequest cfg pkt primary secondary c).2 = .ok c') := by
  unfold makeRequest at h
  split at h
  · cases h
    exact .inl ⟨by simp, rfl⟩
  · obtain ⟨⟨primary, secondary⟩, ht, h⟩ := bind_eq_ok.mp h
    simp only at h
    split at h
    · cases h
      exact .inl ⟨by simp, rfl⟩
    · by_cases hrs : c.sequencer.requestTable (makeLineAddress cfg pkt.addr) = []
      · have hi : insertRequest cfg pkt primary secondary c =
            (.Ready, (insertRequest cfg pkt primary secondary c).2) := by simp [insertRequest, hrs]
        rw [hi] at h
        obtain ⟨c₁, h₁, he⟩ := map_eq_ok.mp h
        cases he
        exact .inr ⟨rfl, primary, secondary, ht, .inr ⟨hrs, h₁⟩⟩
      · have hi : insertRequest cfg pkt primary secondary c =
            (.Aliased, (insertRequest cfg pkt primary secondary c).2) := by simp [insertRequest, hrs]
        rw [hi] at h
        cases h
        exact .inr ⟨rfl, primary, secondary, ht, .inl ⟨hrs, rfl⟩⟩

theorem served_setRequests : Served c (c.setRequests a rs) := ⟨rfl, rfl, rfl, rfl, rfl, rfl, rfl⟩

theorem served_markRemoved : Served c c.markRemoved := ⟨rfl, rfl, rfl, rfl, rfl, rfl, rfl⟩

/-- The requests of a line that a completed read completes. -/
def reads (rs : List SequencerRequest) : List SequencerRequest := rs.takeWhile (·.type.isRead)

/-- The requests of a line that a completed read leaves. -/
def remaining (rs : List SequencerRequest) : List SequencerRequest := rs.dropWhile (·.type.isRead)

/-- What goes to the mandatory queue for the requests that are left. -/
def reissued (cfg : Config) (rs : List SequencerRequest) : List RubyRequest :=
  rs.head?.toList.map fun r => request cfg r.pkt r.secondType

/-- What `readCallback` does to the tables of the sequencer and to the queue. -/
structure Read (cfg : Config) (a : Addr) (rs : List SequencerRequest) (c c' : Controller) :
    Prop where
  served : Served c c'
  hits : c'.sequencer.hitCallbacks.map Packet.blank =
    c.sequencer.hitCallbacks.map Packet.blank ++ (reads rs).map (·.pkt.blank)
  table : c'.sequencer.requestTable =
    Function.update c.sequencer.requestTable a (remaining rs)
  queue : c'.mandatoryQueue = (reissued cfg (remaining rs)).foldl .enqueue c.mandatoryQueue
  receipts : c'.sequencer.bcCallbacks = c.sequencer.bcCallbacks
  record : (∀ r ∈ remaining rs, r.pkt.isBroadcast = false) →
    c'.sequencer.bcRecord = c.sequencer.bcRecord

theorem readLoop_ok {first : Bool} (h : readLoop cfg side a first rs c = .ok c') :
    Read cfg a rs c c' := by
  induction rs generalizing first c with
  | nil =>
    cases h
    exact ⟨served_setRequests, by simp [setRequests, reads], rfl, rfl, rfl, fun _ => rfl⟩
  | cons r rs ih =>
    unfold readLoop at h
    split at h
    · rename_i hr
      obtain ⟨c₁, h₁, h₂⟩ := bind_eq_ok.mp h
      obtain ⟨served, queue, data, seq⟩ := hitCallback_ok h₁
      have rest := ih h₂
      have hreads : reads (r :: rs) = r :: reads rs := List.takeWhile_cons_of_pos hr
      have hremaining : remaining (r :: rs) = remaining rs := List.dropWhile_cons_of_pos hr
      refine ⟨(served_markRemoved.trans served).trans rest.served, ?_, ?_, ?_, ?_, ?_⟩
      · rw [rest.hits, hreads, seq]
        simp [markRemoved, Packet.blank]
      · rw [rest.table, hremaining, seq]
        rfl
      · rw [rest.queue, hremaining, queue]
        rfl
      · rw [rest.receipts, seq]
        rfl
      · intro plain
        rw [rest.record (hremaining ▸ plain), seq]
        rfl
    · split at h
      · cases h
      · rename_i hr _
        obtain ⟨served, queue, seq⟩ := issueRequest_ok h
        have hreads : reads (r :: rs) = [] := List.takeWhile_cons_of_neg hr
        have hremaining : remaining (r :: rs) = r :: rs := List.dropWhile_cons_of_neg hr
        refine ⟨served_setRequests.trans served, ?_, ?_, ?_, ?_, ?_⟩
        · rw [seq, hreads]
          simp [setRequests]
        · rw [seq, hremaining]
          rfl
        · rw [queue, hremaining]
          rfl
        · rw [seq]
          rfl
        · intro plain
          rw [hremaining] at plain
          rw [seq]
          simp [setRequests, plain r (.head rs)]

theorem readCallback_ok (h : readCallback cfg side a c = .ok c') :
    (∃ r rest, c.sequencer.requestTable a = r :: rest ∧ r.type.isRead) ∧
      Read cfg a (c.sequencer.requestTable a) c c' := by
  unfold readCallback at h
  split at h
  · cases h
  · split at h
    · cases h
    · rename_i hne
      refine ⟨?_, readLoop_ok h⟩
      obtain ⟨r, rest, hr⟩ := List.exists_cons_of_ne_nil hne
      refine ⟨r, rest, hr, ?_⟩
      rw [hr] at h
      unfold readLoop at h
      split at h
      · assumption
      · cases h

/-- What `writeCallback` does to the tables of the sequencer and to the queue. -/
structure Written (a : Addr) (rs : List SequencerRequest) (c c' : Controller) : Prop where
  served : Served c c'
  hits : c'.sequencer.hitCallbacks.map Packet.blank =
    c.sequencer.hitCallbacks.map Packet.blank ++ rs.map (·.pkt.blank)
  table : c'.sequencer.requestTable = Function.update c.sequencer.requestTable a []
  queue : c'.mandatoryQueue = c.mandatoryQueue
  receipts : c'.sequencer.bcCallbacks = c.sequencer.bcCallbacks
  record : c'.sequencer.bcRecord = c.sequencer.bcRecord

theorem beforeWrite_ok :
    Served c (beforeWrite a r c).2 ∧ (beforeWrite a r c).2.sequencer = c.sequencer ∧
      (beforeWrite a r c).2.mandatoryQueue = c.mandatoryQueue := by
  have clear : Served c (c.llscClearMonitor a) := served_llscClearMonitor a
  have block (c₁ : Controller) : Served c₁ (c₁.blockOnQueue a) := ⟨rfl, rfl, rfl, rfl, rfl, rfl, rfl⟩
  have unblock (c₁ : Controller) : Served c₁ (c₁.unblock a) := ⟨rfl, rfl, rfl, rfl, rfl, rfl, rfl⟩
  have seq : (c.llscClearMonitor a).sequencer = c.sequencer := sequencer_modifyEntry
  have queue : (c.llscClearMonitor a).mandatoryQueue = c.mandatoryQueue :=
    mandatoryQueue_modifyEntry
  cases ht : r.type <;> simp only [beforeWrite, ht, llscStoreConditional, ne_eq, reduceCtorEq,
    not_false_eq_true, not_true_eq_false, if_true, if_false]
  case LockedRMWRead => exact ⟨clear.trans (block _), seq, queue⟩
  case LockedRMWWrite => exact ⟨clear.trans (unblock _), seq, queue⟩
  all_goals exact ⟨clear, seq, queue⟩

theorem writeLoop_ok {first : Bool} (h : writeLoop cfg side a first rs c = .ok c') :
    Written a rs c c' := by
  induction rs generalizing first c with
  | nil =>
    cases h
    exact ⟨served_setRequests, by simp [setRequests], rfl, rfl, rfl, rfl⟩
  | cons r rs ih =>
    -- both kinds of requests are handed over and leave the rest to the loop
    have next {c₀ c₁ : Controller} {success : Bool} (before : Served c c₀)
        (hseq : c₀.sequencer = c.sequencer) (hqueue : c₀.mandatoryQueue = c.mandatoryQueue)
        (h₁ : hitCallback cfg side a success r c₀.markRemoved = .ok c₁)
        (rest : Written a rs c₁ c') : Written a (r :: rs) c c' := by
      obtain ⟨served, queue, data, seq⟩ := hitCallback_ok h₁
      refine ⟨((before.trans served_markRemoved).trans served).trans rest.served, ?_, ?_, ?_, ?_, ?_⟩
      · rw [rest.hits, seq]
        simp [markRemoved, Packet.blank, hseq]
      · rw [rest.table, seq]
        simp [markRemoved, hseq]
      · rw [rest.queue, queue]
        exact hqueue
      · rw [rest.receipts, seq]
        simp [markRemoved, hseq]
      · rw [rest.record, seq]
        simp [markRemoved, hseq]
    unfold writeLoop at h
    split at h
    · split at h
      · cases h
      · obtain ⟨c₁, h₁, h₂⟩ := bind_eq_ok.mp h
        exact next (.refl c) rfl rfl h₁ (ih h₂)
    · obtain ⟨c₁, h₁, h₂⟩ := bind_eq_ok.mp h
      obtain ⟨before, hseq, hqueue⟩ := beforeWrite_ok (c := c) (a := a) (r := r)
      exact next before hseq hqueue h₁ (ih h₂)

theorem writeCallback_ok (h : writeCallback cfg side a c = .ok c') :
    (∃ r rest, c.sequencer.requestTable a = r :: rest ∧ r.type.isRead = false) ∧
      Written a (c.sequencer.requestTable a) c c' := by
  unfold writeCallback at h
  split at h
  · cases h
  · split at h
    · cases h
    · rename_i hne
      refine ⟨?_, writeLoop_ok h⟩
      obtain ⟨r, rest, hr⟩ := List.exists_cons_of_ne_nil hne
      refine ⟨r, rest, hr, ?_⟩
      rw [hr] at h
      unfold writeLoop at h
      split at h
      · cases h
      · rename_i hread
        simpa using hread

/-- The copies L1 `self` makes of the broadcast recorded for a line, if any. -/
def copies (cfg : Config) (self : MachineID) (a : Addr) (data : DataBlock) :
    Option Packet → List RubyRequest
  | none => []
  | some pkt => (others cfg self).map (duplicate cfg a data pkt)

theorem foldl_enqueueMandatory (ms : List RubyRequest) (c : Controller) :
    ms.foldl enqueueMandatory c =
      { c with mandatoryQueue := ms.foldl .enqueue c.mandatoryQueue } := by
  induction ms generalizing c with
  | nil => rfl
  | cons m ms ih => rw [List.foldl_cons, ih]; rfl

/-- The copies are enqueued and the record is gone. -/
theorem duplicateIfBC_ok (h : duplicateIfBC cfg side a c = .ok c') :
    c' = { c with
      mandatoryQueue := (copies cfg c.machineID a (c.dataBlk side a)
        (c.sequencer.bcRecord a)).foldl .enqueue c.mandatoryQueue
      sequencer := { c.sequencer with
        bcRecord := Function.update c.sequencer.bcRecord a none } } := by
  unfold duplicateIfBC at h
  cases hrec : c.sequencer.bcRecord a with
  | none =>
    simp only [hrec, Except.ok.injEq] at h
    subst h
    simp [copies, ← hrec, Function.update_eq_self]
  | some pkt =>
    simp only [hrec, duplicateBC] at h
    split at h
    · cases h
    · cases h
      rw [← List.foldl_map (f := duplicate cfg a (c.dataBlk side a) pkt) (g := enqueueMandatory),
        foldl_enqueueMandatory]
      rfl

theorem readCallbackBC_ok (h : readCallbackBC cfg a pkt c = .ok c') :
    c' = { c with sequencer := { c.sequencer with
      bcCallbacks := c.sequencer.bcCallbacks ++ [pkt] } } := by
  unfold readCallbackBC at h
  split at h
  · cases h
  · cases h
    rfl

end Controller

end Ruby
