import Elkeid.Discovery.Exchange

/-!
# A cluster of endpoints

Every endpoint sends what is registered and evicted there to all others, in batches which
arrive in order, and each applies what it receives as it comes. The operations carry no
order between endpoints: an instance whose last operation was a `Register` at one endpoint
and an `Evict` at another may end up present here and absent there. When the endpoints'
last operations on an instance are of one kind, all endpoints agree on it in the end.
-/

namespace Elkeid.Discovery

open Foundations Foundations.Machine List Option Function

structure Cluster where
  endpoints : Bytes → Endpoint
  /-- The batches on their way from one host to another. -/
  wire : Bytes → Bytes → List (List SyncInfo)

def newCluster : Cluster where
  endpoints := fun _ => newEndpoint
  wire := fun _ _ => []

inductive Action
  | move (host : Bytes) (move : Move)
  | deliver (source target : Bytes)
  deriving DecidableEq

def getOtherHosts (members : List Bytes) (host : Bytes) : List Bytes :=
  members.filter (· ≠ host)

namespace Cluster

/-- `syncSend` posts a batch to every other host. -/
def post (members : List Bytes) (host : Bytes) (cluster : Cluster) : Event → Bytes → Bytes →
    List (List SyncInfo)
  | .flushed data => fun source target =>
    if source = host ∧ target ∈ getOtherHosts members host then
      cluster.wire source target ++ [data]
    else cluster.wire source target
  | _ => cluster.wire

/-- A batch reaches `Recv` only from a wire. -/
def step (members : List Bytes) (cluster : Cluster) : Action → Option (Cluster × Bytes × Event)
  | .move _ (.recv _) => none
  | .move host move =>
    if host ∈ members then
      (cluster.endpoints host).step move |>.map fun (next, event) =>
        ({ endpoints := update cluster.endpoints host next
           wire := cluster.post members host event }, host, event)
    else none
  | .deliver source target =>
    match cluster.wire source target with
    | [] => none
    | data :: rest =>
      let (next, event) := (cluster.endpoints target).recv ⟨source, data⟩
      some
        ({ endpoints := update cluster.endpoints target next
           wire := update cluster.wire source
            (update (cluster.wire source) target rest) },
          target, event)

/-- No call is under way, and everything sent has been received and applied. -/
structure Settled (members : List Bytes) (cluster : Cluster) : Prop where
  calls : ∀ host ∈ members, (cluster.endpoints host).calls = []
  outgoing : ∀ host ∈ members, (cluster.endpoints host).outgoing = []
  recvChan : ∀ host ∈ members, (cluster.endpoints host).recvChan = []
  applying : ∀ host ∈ members, (cluster.endpoints host).applying = none
  wire : ∀ source ∈ members, ∀ target ∈ members, cluster.wire source target = []

def Calm (members : List Bytes) : List (Bytes × Event) → Cluster → Action → Prop :=
  OnOutput (step members) (fun _ cluster (host, event) => event.Calm (cluster.endpoints host))

end Cluster

/-! ## What a step does -/

namespace Cluster

inductive Took (members : List Bytes) (cluster : Cluster) : Cluster → Bytes → Event → Prop
  | moved (host move next event) (member : host ∈ members)
      (atHost : (cluster.endpoints host).Took move next event)
      (notRecv : ∀ transInfo, move ≠ .recv transInfo) :
      Took members cluster
        { endpoints := update cluster.endpoints host next
          wire := cluster.post members host event }
        host event
  | delivered (source target data rest next event)
      (queued : cluster.wire source target = data :: rest)
      (atHost : (cluster.endpoints target).Took (.recv ⟨source, data⟩) next event) :
      Took members cluster
        { endpoints := update cluster.endpoints target next
          wire := update cluster.wire source
            (update (cluster.wire source) target rest) }
        target event

theorem took_of_step {members : List Bytes} {cluster next : Cluster} {action : Action}
    {host : Bytes} {event : Event}
    (stepped : cluster.step members action = some (next, host, event)) :
    Took members cluster next host event := by
  simp only [step] at stepped
  split at stepped
  next => cases stepped
  next mover move notRecv =>
    split at stepped
    next member =>
      obtain ⟨⟨moved, _⟩, endpointStepped, ⟨⟩⟩ := map_eq_some_iff.mp stepped
      exact .moved _ move moved _ member (Endpoint.took_of_step endpointStepped) notRecv
    next => cases stepped
  next source target =>
    split at stepped <;> cases stepped
    next data rest queued =>
      exact .delivered source _ data rest _ _ queued (Endpoint.took_of_step rfl)

namespace Took

variable {members : List Bytes} {cluster next : Cluster} {host : Bytes} {event : Event}

section

variable (took : Took members cluster next host event)
include took

theorem endpoint_took : ∃ move, (cluster.endpoints host).Took move (next.endpoints host) event := by
  cases took with
  | moved _ move _ _ member atHost notRecv =>
    exact ⟨move, by simpa only [update_self] using atHost⟩
  | delivered source _ data rest _ _ queued atHost =>
    exact ⟨_, by simpa only [update_self] using atHost⟩

theorem endpoints_of_ne {other : Bytes}
    (differs : other ≠ host) : next.endpoints other = cluster.endpoints other := by
  cases took <;> exact update_of_ne differs _ _

theorem wire_eq (calm : event.Calm (cluster.endpoints host)) (source target : Bytes) :
    (if target = host then event.receives source else []) ++ (next.wire source target).flatten =
      (cluster.wire source target).flatten ++
        if source = host ∧ source ∈ members ∧ target ∈ getOtherHosts members host then
          event.flushes
        else [] := by
  cases took with
  | moved _ move _ _ member atHost notRecv =>
    have noReceived : event.receives source = [] := by
      cases atHost with
      | received transInfo => exact absurd rfl (notRecv transInfo)
      | _ => rfl
    simp only [noReceived, ite_self, nil_append]
    cases event with
    | flushed data =>
      simp only [post, Event.flushes]
      by_cases posted : source = host ∧ target ∈ getOtherHosts members host
      · obtain ⟨rfl, other⟩ := posted
        simp [member, other]
      · have notPosted : ¬ (source = host ∧ source ∈ members ∧
            target ∈ getOtherHosts members host) := by
          rintro ⟨same, _, other⟩
          exact posted ⟨same, other⟩
        simp [posted, notPosted]
    | _ => simp [post, Event.flushes]
  | delivered otherSource _ data rest _ _ queued atHost =>
    cases atHost with
    | refused => cases calm
    | received =>
      simp only [Event.flushes, ite_self, append_nil, Event.receives]
      by_cases sameTarget : target = host
      · subst sameTarget
        by_cases sameSource : otherSource = source
        · subst sameSource
          simp [queued]
        · simp [sameSource, update_of_ne (Ne.symm sameSource)]
      · simp only [sameTarget, if_false, nil_append]
        by_cases sameSource : source = otherSource
        · subst sameSource
          rw [update_self, update_of_ne sameTarget]
        · rw [update_of_ne sameSource]

end

end Took

end Cluster

/-! ## What holds along a run -/

def eventsAt (host : Bytes) (outputs : List (Bytes × Event)) : List Event :=
  bySender host outputs

def operations (events : List Event) : List (Option Bytes × Operation) :=
  events.filterMap Event.operation

def calledOperations (events : List Event) : List Operation := bySender none (operations events)

def sentOperations (events : List Event) : List Operation :=
  (events.flatMap Event.sends).map SyncInfo.operation

@[simp]
theorem eventsAt_self (host : Bytes) (outputs : List (Bytes × Event)) (event : Event) :
    eventsAt host (outputs ++ [(host, event)]) = eventsAt host outputs ++ [event] := by
  rw [eventsAt, bySender_concat, if_pos rfl]
  rfl

theorem eventsAt_of_ne {host other : Bytes} (differs : other ≠ host)
    (outputs : List (Bytes × Event)) (event : Event) :
    eventsAt other (outputs ++ [(host, event)]) = eventsAt other outputs := by
  rw [eventsAt, bySender_concat, if_neg (Ne.symm differs), append_nil]
  rfl

def arrived (source target : Bytes) (outputs : List (Bytes × Event)) : List SyncInfo :=
  (eventsAt target outputs).flatMap (Event.applies source)

structure Cluster.Synced (members : List Bytes) (outputs : List (Bytes × Event))
    (cluster : Cluster) : Prop where
  named : ∀ host, (cluster.endpoints host).Named
  stored : ∀ host name key, ((cluster.endpoints host).registryMap.hGet name key).isSome ↔
    Since (· = ⟨.register, name, key⟩) (· = ⟨.evict, name, key⟩)
      ((operations (eventsAt host outputs)).map Prod.snd)
  sending : ∀ host, ∀ operation ∈ calledOperations (eventsAt host outputs),
    operation ∈ sentOperations (eventsAt host outputs) ∨
      ∃ info, .sending info ∈ (cluster.endpoints host).calls ∧ info.operation = operation
  ordered : ∀ source ∈ members, ∀ target ∈ members, source ≠ target →
    arrived source target outputs ++ (cluster.endpoints target).incoming source ++
      (cluster.wire source target).flatten ++ (cluster.endpoints source).outgoing =
        (eventsAt source outputs).flatMap Event.sends
  foreign : ∀ source target, source ∉ members ∨ source = target →
    arrived source target outputs ++ (cluster.endpoints target).incoming source ++
      (cluster.wire source target).flatten = []

theorem newCluster_synced (members : List Bytes) : newCluster.Synced members [] where
  named := fun _ => newEndpoint_named
  stored := fun _ _ _ => iff_of_false nofun Since.not_nil
  sending := fun _ _ listed => by cases listed
  ordered := fun _ _ _ _ _ => rfl
  foreign := fun _ _ _ => rfl

@[simp]
theorem operations_concat (events : List Event) (event : Event) :
    operations (events ++ [event]) = operations events ++ event.operation.toList :=
  filterMap_concat _ _ _

namespace Cluster.Took

variable {members : List Bytes} {cluster next : Cluster} {host : Bytes} {event : Event}
  {outputs : List (Bytes × Event)}

section

variable (took : Took members cluster next host event)
include took

section

variable (synced : cluster.Synced members outputs)
include synced

theorem named (other : Bytes) : (next.endpoints other).Named := by
  by_cases same : other = host
  · subst same
    obtain ⟨move, atHost⟩ := took.endpoint_took
    exact atHost.named (synced.named other)
  · rw [took.endpoints_of_ne same]
    exact synced.named other

section

variable (calm : event.Calm (cluster.endpoints host))
include calm

theorem stored (other name key : Bytes) :
    ((next.endpoints other).registryMap.hGet name key).isSome ↔
      Since (· = ⟨.register, name, key⟩) (· = ⟨.evict, name, key⟩)
        ((operations (eventsAt other (outputs ++ [(host, event)]))).map Prod.snd) := by
  by_cases same : other = host
  · subst same
    obtain ⟨move, atHost⟩ := took.endpoint_took
    rw [eventsAt_self, operations_concat, map_append]
    cases carried : event.operation with
    | none =>
      rw [atHost.isSome_of_operation_none calm carried]
      simpa using synced.stored other name key
    | some entry =>
      obtain ⟨sender, operation⟩ := entry
      rw [atHost.isSome_of_operation carried, synced.stored other name key]
      rw [toList_some, map_singleton, Since.append_singleton]
  · rw [eventsAt_of_ne same, took.endpoints_of_ne same]
    exact synced.stored other name key

theorem sending (other : Bytes) :
    ∀ operation ∈ calledOperations (eventsAt other (outputs ++ [(host, event)])),
      operation ∈ sentOperations (eventsAt other (outputs ++ [(host, event)])) ∨
        ∃ info, .sending info ∈ (next.endpoints other).calls ∧ info.operation = operation := by
  intro operation listed
  by_cases same : other = host
  · subst same
    obtain ⟨move, atHost⟩ := took.endpoint_took
    rw [eventsAt_self] at listed ⊢
    rw [calledOperations, mem_bySender, operations_concat, mem_append] at listed
    rw [sentOperations, flatMap_concat, map_append, mem_append]
    rcases listed with old | new
    · rcases synced.sending other operation (mem_bySender.mpr old) with sent | ⟨info, inCall, rfl⟩
      · exact .inl (.inl sent)
      · rcases atHost.sending_kept inCall with still | rfl | rfl
        · exact .inr ⟨info, still, rfl⟩
        · exact .inl (.inr mem_cons_self)
        · cases calm
    · exact .inr (atHost.exists_sending (synced.named other) (mem_toList.mp new))
  · rw [eventsAt_of_ne same] at listed ⊢
    rw [took.endpoints_of_ne same]
    exact synced.sending other operation listed

theorem ordered {source target : Bytes} (sends : source ∈ members) (receives : target ∈ members)
    (differ : source ≠ target) :
    arrived source target (outputs ++ [(host, event)]) ++
      (next.endpoints target).incoming source ++ (next.wire source target).flatten ++
        (next.endpoints source).outgoing =
          (eventsAt source (outputs ++ [(host, event)])).flatMap Event.sends := by
  have before := synced.ordered source sends target receives differ
  have onWire := took.wire_eq calm source target
  obtain ⟨move, atHost⟩ := took.endpoint_took
  by_cases isSource : source = host
  · subst isSource
    have isOther : target ∈ getOtherHosts members source := by
      simp [getOtherHosts, receives, Ne.symm differ]
    simp only [Ne.symm differ, if_false, nil_append, sends, isOther, and_self, if_true] at onWire
    rw [arrived, eventsAt_of_ne (Ne.symm differ), took.endpoints_of_ne (Ne.symm differ),
      eventsAt_self, flatMap_concat, onWire, ← before, arrived]
    simp [atHost.outgoing_eq]
  · simp only [isSource, false_and, if_false, append_nil] at onWire
    rw [eventsAt_of_ne isSource, took.endpoints_of_ne isSource, ← before]
    by_cases isTarget : target = host
    · subst isTarget
      simp only [if_true] at onWire
      rw [arrived, eventsAt_self, flatMap_concat, append_assoc _ _ (Endpoint.incoming _ _),
        atHost.incoming_eq source, ← onWire, arrived]
      simp
    · simp only [isTarget, if_false, nil_append] at onWire
      rw [arrived, eventsAt_of_ne isTarget, took.endpoints_of_ne isTarget, onWire, arrived]

theorem foreign {source target : Bytes} (outside : source ∉ members ∨ source = target) :
    arrived source target (outputs ++ [(host, event)]) ++
      (next.endpoints target).incoming source ++ (next.wire source target).flatten = [] := by
  have before := synced.foreign source target outside
  have onWire := took.wire_eq calm source target
  have notPosted : ¬ (source = host ∧ source ∈ members ∧ target ∈ getOtherHosts members host) := by
    rintro ⟨rfl, member, other⟩
    rcases outside with notMember | rfl
    · exact notMember member
    · simp [getOtherHosts] at other
  simp only [notPosted, if_false, append_nil] at onWire
  by_cases isTarget : target = host
  · subst isTarget
    obtain ⟨move, atHost⟩ := took.endpoint_took
    simp only [if_true] at onWire
    rw [arrived, eventsAt_self, flatMap_concat, append_assoc _ _ (Endpoint.incoming _ _),
      atHost.incoming_eq source, ← before, ← onWire, arrived]
    simp
  · simp only [isTarget, if_false, nil_append] at onWire
    rw [arrived, eventsAt_of_ne isTarget, took.endpoints_of_ne isTarget, onWire]
    exact before

end

end

theorem synced
    (before : cluster.Synced members outputs) (calm : event.Calm (cluster.endpoints host)) :
    next.Synced members (outputs ++ [(host, event)]) where
  named := took.named before
  stored := took.stored before calm
  sending := took.sending before calm
  ordered := fun _ sends _ receives differ => took.ordered before calm sends receives differ
  foreign := fun _ _ outside => took.foreign before calm outside

end

end Cluster.Took

theorem run_synced {members : List Bytes} {actions : List Action} {cluster : Cluster}
    {outputs : List (Bytes × Event)}
    (calm : AllMeet (Cluster.step members) (Cluster.Calm members) [] newCluster actions)
    (ran : run (Cluster.step members) newCluster actions = some (cluster, outputs)) :
    cluster.Synced members outputs := by
  have preserved : ∀ past cluster action next output, Cluster.Synced members past cluster →
      Cluster.Calm members past cluster action → cluster.step members action = some (next, output) →
          next.Synced members (past ++ [output]) := by
    rintro past cluster action next ⟨host, event⟩ synced calm stepped
    exact (Cluster.took_of_step stepped).synced synced (calm next (host, event) stepped)
  exact calm.invariant preserved ran (newCluster_synced members)

/-! ## Agreement -/

theorem bySender_operations (source : Bytes) (events : List Event) :
    bySender (some source) (operations events) =
      (events.flatMap (Event.applies source)).map SyncInfo.operation := by
  induction events using reverseRecOn with
  | nil => rfl
  | append_singleton events event ih =>
    rw [operations_concat, flatMap_concat, map_append, ← ih]
    cases event with
    | applied otherSource info =>
      simp only [Event.operation, toList_some, bySender_concat, Option.some.injEq, Event.applies]
      split <;> rfl
    | _ => simp [bySender, Event.operation, Event.applies]

/-- In the order of the calls or in the order of the sends, the last operation on the
instance was a `Register`. -/
def RegisteredLast (name key : Bytes) (events : List Event) : Prop :=
  Since (· = ⟨.register, name, key⟩) (· = ⟨.evict, name, key⟩) (calledOperations events) ∨
    Since (· = ⟨.register, name, key⟩) (· = ⟨.evict, name, key⟩) (sentOperations events)

def EvictedLast (name key : Bytes) (events : List Event) : Prop :=
  Since (· = ⟨.evict, name, key⟩) (· = ⟨.register, name, key⟩) (calledOperations events) ∨
    Since (· = ⟨.evict, name, key⟩) (· = ⟨.register, name, key⟩) (sentOperations events)

section Settled

variable {members : List Bytes} {outputs : List (Bytes × Event)} {cluster : Cluster}
  {target source : Bytes}

theorem incoming_of_settled (settled : cluster.Settled members)
    (member : target ∈ members) (source : Bytes) :
    (cluster.endpoints target).incoming source = [] := by
  rw [Endpoint.incoming, settled.applying target member, settled.recvChan target member]
  rfl

section

variable (synced : cluster.Synced members outputs)
include synced

theorem bySender_of_settled (settled : cluster.Settled members) (sends : source ∈ members)
    (receives : target ∈ members) (differ : source ≠ target) :
    bySender (some source) (operations (eventsAt target outputs)) =
      sentOperations (eventsAt source outputs) := by
  have balance := synced.ordered source sends target receives differ
  rw [incoming_of_settled settled receives, settled.wire source sends target receives,
    settled.outgoing source sends, flatten_nil, append_nil, append_nil,
    append_nil] at balance
  rw [bySender_operations, sentOperations, ← balance]
  rfl

theorem source_of_settled {operation : Operation}
    (listed : (some source, operation) ∈ operations (eventsAt target outputs)) :
    source ∈ members ∧ source ≠ target := by
  by_contra outside
  have nothing := synced.foreign source target (by
    by_cases member : source ∈ members
    · exact .inr (not_not.mp fun differ => outside ⟨member, differ⟩)
    · exact .inl member)
  have noneArrived := (append_eq_nil_iff.mp (append_eq_nil_iff.mp nothing).1).1
  rw [arrived] at noneArrived
  have applied := mem_bySender.mpr listed
  rw [bySender_operations, noneArrived] at applied
  cases applied

theorem exists_last_of_settled
    (settled : cluster.Settled members) {sets clears : Operation → Prop} {host : Bytes}
    (member : host ∈ members)
    (since : Since sets clears ((operations (eventsAt host outputs)).map Prod.snd)) :
    ∃ other ∈ members, Since sets clears (calledOperations (eventsAt other outputs)) ∨
      Since sets clears (sentOperations (eventsAt other outputs)) := by
  obtain ⟨sender, operation, listed, last⟩ := since.exists_sender
  cases sender with
  | none => exact ⟨host, member, .inl last⟩
  | some source =>
    obtain ⟨sends, differ⟩ := source_of_settled synced listed
    rw [bySender_of_settled synced settled sends member differ] at last
    exact ⟨source, sends, .inr last⟩

theorem mem_operations_of_settled (settled : cluster.Settled members) (sends : source ∈ members)
    (receives : target ∈ members) {operation : Operation}
    (isCalled : operation ∈ calledOperations (eventsAt source outputs)) :
    operation ∈ (operations (eventsAt target outputs)).map Prod.snd := by
  by_cases same : source = target
  · subst same
    exact mem_map_of_mem (mem_bySender.mp isCalled)
  · rcases synced.sending source operation isCalled with isSent | ⟨info, inCall, _⟩
    · rw [← bySender_of_settled synced settled sends receives same] at isSent
      exact mem_map_of_mem (mem_bySender.mp isSent)
    · rw [settled.calls source sends] at inCall
      cases inCall

end

end Settled

/-- Once everything sent has been applied, an instance that some endpoint registered and
none evicted last is stored at every endpoint, and one that none registered last is stored
at none. -/
theorem endpoints_agree {members : List Bytes} {actions : List Action} {cluster : Cluster}
    {outputs : List (Bytes × Event)}
    (calm : AllMeet (Cluster.step members) (Cluster.Calm members) [] newCluster actions)
    (ran : run (Cluster.step members) newCluster actions = some (cluster, outputs))
    (settled : cluster.Settled members) (name key : Bytes) :
    ((∀ host ∈ members, ¬ EvictedLast name key (eventsAt host outputs)) →
      (∃ host ∈ members, ⟨.register, name, key⟩ ∈ calledOperations (eventsAt host outputs)) →
        ∀ host ∈ members, ((cluster.endpoints host).registryMap.hGet name key).isSome) ∧
    ((∀ host ∈ members, ¬ RegisteredLast name key (eventsAt host outputs)) →
      ∀ host ∈ members, (cluster.endpoints host).registryMap.hGet name key = none) := by
  have synced := run_synced calm ran
  refine ⟨?_, ?_⟩
  · rintro noneEvicted ⟨source, sends, isCalled⟩ host member
    have listed := mem_operations_of_settled synced settled sends member isCalled
    have relevant : ∃ operation ∈ (operations (eventsAt host outputs)).map Prod.snd,
        operation = ⟨.register, name, key⟩ ∨ operation = ⟨.evict, name, key⟩ :=
      ⟨_, listed, .inl rfl⟩
    rcases Since.or_swap relevant with registered | evicted
    · exact (synced.stored host name key).mpr registered
    · obtain ⟨other, isMember, last⟩ := exists_last_of_settled synced settled member evicted
      exact absurd last (noneEvicted other isMember)
  · intro noneRegistered host member
    rw [← not_isSome_iff_eq_none, synced.stored host name key]
    intro registered
    obtain ⟨other, isMember, last⟩ := exists_last_of_settled synced settled member registered
    exact noneRegistered other isMember last

def sampleKey : Bytes := subKey [0x61] 1

def sampleMembers : List Bytes := [[0x41], [0x42]]

def registerAt (host : Bytes) : List Action :=
  [.move host (.register [0x73] [0x61] 1 1 [] 0), .move host (.proceed 0), .move host (.proceed 0),
    .move host (.proceed 0)]

def evictAt (host : Bytes) : List Action :=
  [.move host (.evict [0x73] [0x61] 1), .move host (.proceed 0)]

def postFrom (source : Bytes) : List Action := [.move source .merge, .move source .sendTick]

def applyAt (source target : Bytes) : List Action :=
  [.deliver source target, .move target .takeBatch, .move target .applyInfo,
    .move target .applyInfo]

theorem endpoints_agree_oneRegister : ∃ cluster outputs, run (Cluster.step sampleMembers) newCluster
        (registerAt [0x41] ++ postFrom [0x41] ++ applyAt [0x41] [0x42]) =
          some (cluster, outputs) ∧
      ∀ host ∈ sampleMembers,
        ((cluster.endpoints host).registryMap.hGet [0x73] sampleKey).isSome := by
  have calm : AllMeet (Cluster.step sampleMembers) (Cluster.Calm sampleMembers) [] newCluster
      (registerAt [0x41] ++ postFrom [0x41] ++ applyAt [0x41] [0x42]) := by
    iterate 10 refine allMeet_onOutput_cons rfl trivial ?_
    trivial
  have result : ∃ cluster outputs, run (Cluster.step sampleMembers) newCluster
      (registerAt [0x41] ++ postFrom [0x41] ++ applyAt [0x41] [0x42]) = some (cluster, outputs) ∧
      cluster.Settled sampleMembers ∧
      (∀ host ∈ sampleMembers,
        ⟨.evict, [0x73], sampleKey⟩ ∉ calledOperations (eventsAt host outputs) ∧
          ⟨.evict, [0x73], sampleKey⟩ ∉ sentOperations (eventsAt host outputs)) ∧
      ⟨.register, [0x73], sampleKey⟩ ∈ calledOperations (eventsAt [0x41] outputs) := by
    refine ⟨_, _, rfl, ?_, by decide, by decide⟩
    constructor <;> decide
  obtain ⟨cluster, outputs, ran, settled, noEvict, registered⟩ := result
  refine ⟨cluster, outputs, ran, ?_⟩
  refine (endpoints_agree calm ran settled [0x73] sampleKey).1 ?_ ⟨[0x41], by decide, registered⟩
  rintro host member (last | last)
  · obtain ⟨operation, listed, rfl⟩ := last.exists_mem
    exact (noEvict host member).1 listed
  · obtain ⟨operation, listed, rfl⟩ := last.exists_mem
    exact (noEvict host member).2 listed

/-- One endpoint registers an instance while another evicts it. When all is applied, the
first has evicted it and the second has it registered. -/
theorem registerAndEvict_diverge : ∃ cluster outputs,
      AllMeet (Cluster.step sampleMembers) (Cluster.Calm sampleMembers) [] newCluster
        (registerAt [0x41] ++ evictAt [0x42] ++ postFrom [0x41] ++ postFrom [0x42] ++
          applyAt [0x41] [0x42] ++ applyAt [0x42] [0x41]) ∧
      run (Cluster.step sampleMembers) newCluster
        (registerAt [0x41] ++ evictAt [0x42] ++ postFrom [0x41] ++ postFrom [0x42] ++
          applyAt [0x41] [0x42] ++ applyAt [0x42] [0x41]) = some (cluster, outputs) ∧
      cluster.Settled sampleMembers ∧
      (cluster.endpoints [0x41]).registryMap.hGet [0x73] sampleKey = none ∧
      ((cluster.endpoints [0x42]).registryMap.hGet [0x73] sampleKey).isSome := by
  refine ⟨_, _, ?_, rfl, ?_, rfl, rfl⟩
  · iterate 18 refine allMeet_onOutput_cons rfl trivial ?_
    trivial
  · constructor <;> decide

end Elkeid.Discovery
