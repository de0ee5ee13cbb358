import Elkeid.Probe.ArgvLoop

/-!
# Reporting DNS queries

`__get_dns_query` of `driver/LKM/include/util.h`, and the probes of `udp_recvmsg` and
`udpv6_recvmsg` in `driver/LKM/src/smith_hook.c` with `udp_process_dns`. A result of `none` is an
access outside of a buffer. The packet stands at the front of the receive buffer when the call has
returned; what the handlers keep of it lies in an instance that was used before.
-/

namespace Elkeid.Probe.Dns

open Foundations List Option

/-- `strlen`, in memory that may end before a NUL. -/
def strlen (memory : Bytes) : Option Nat :=
  if memory.contains 0 then some (cText memory).length else none

/-- The loop of `__get_dns_query` from byte `i` on, with the bytes from there. -/
def getDnsQueryLoop : Nat → Nat → Int → Bytes → Bytes → Option Bytes
  | 0, _, _, _, res => some res
  | _ + 1, _, _, [], _ => none
  | len + 1, i, flag, byte :: data, res =>
    if flag = -1 then getDnsQueryLoop len (i + 1) byte.toNat data res
    else if flag = 0 then
      (store res ((i : Int) - 1) 46).bind (getDnsQueryLoop len (i + 1) byte.toNat data)
    else (store res ((i : Int) - 1) byte).bind (getDnsQueryLoop len (i + 1) (flag - 1) data)

def getDnsQuery (data res : Bytes) : Option Bytes :=
  (strlen data).bind fun len => getDnsQueryLoop len 0 (-1) data res

inductive Family where
  | inet
  | inet6

/-- The ports are in network order. -/
structure Socket where
  sport : UInt16
  dport : UInt16
  saddr : Nat
  daddr : Nat
  /-- `connect` gives a peer with a port an address -/
  connected : dport ≠ 0 → daddr ≠ 0

structure Msg where
  /-- the sender -/
  msgName : Option (UInt16 × Nat)
  /-- the first piece of the receive buffer -/
  iov : Bytes

structure RecvData where
  sport : Nat
  dport : Nat
  dip : Nat
  sip : Nat
  msg : Option Msg
  iov : Bytes

structure Call where
  family : Family
  socket : Socket
  msg : Msg
  errQueue : Bool
  /-- whether `recv_data` is allocated, filled, and `query` allocated -/
  kmalloc : Bool
  copies : Bool
  kzalloc : Bool

structure Report where
  family : Family
  query : Bytes
  dip : Nat
  sip : Nat
  dport : Nat
  sport : Nat
  opcode : UInt8
  rcode : UInt8

def ntohs (port : UInt16) : Nat := (port <<< 8 ||| port >>> 8).toNat

def isDns (port : UInt16) : Bool := port = 13568 ∨ port = 59668

def udpMsgParser (msg : Msg) (data : RecvData) : RecvData :=
  if 0 < msg.iov.length then { data with iov := msg.iov } else data

/-- The part of `udp_recvmsg_handler` for a socket without a peer. -/
def fromSender (data : RecvData) : Option RecvData :=
  match data.msg with
  | some ⟨some (port, address), iov⟩ =>
    if isDns port then
      some (udpMsgParser ⟨some (port, address), iov⟩
        { data with dport := port.toNat, dip := address })
    else none
  | _ => none

/-- What `udp_recvmsg_handler` copies into `recv_data`. -/
def copied (iov : Bytes) : Bytes := iov.take (if iov.length < 512 then iov.length else 512) ++ [0]

namespace Call

variable (call : Call)

/-- `udp_recvmsg_entry_handler` and `udpv6_recvmsg_entry_handler`; without a result the return is
not probed. -/
def entryHandler (data : RecvData) : Option RecvData :=
  let socket := call.socket
  if call.errQueue then none
  else if isDns socket.dport then
    let hasPeer := match call.family with
      | .inet => socket.daddr != 0
      | .inet6 => socket.dport != 0
    let data := udpMsgParser call.msg (if hasPeer then { data with
      dip := socket.daddr
      sip := socket.saddr
      sport := ntohs socket.sport
      dport := ntohs socket.dport } else data)
    if 0 < data.iov.length then some data else none
  else if socket.dport = 0 then
    some { data with
      msg := some call.msg
      dport := 0
      sip := socket.saddr
      sport := ntohs socket.sport }
  else none

def report (data : RecvData) (flags code : UInt8) (query : Bytes) : Report where
  family := call.family
  query := query
  dip := data.dip
  sip := data.sip
  dport := data.dport
  sport := data.sport
  opcode := flags >>> 3 &&& 0x0f
  rcode := code &&& 0x0f

def udpProcessDns (data : RecvData) (recvData : Bytes) : Option (Option Report) :=
  recvData[2]?.bind fun (flags : UInt8) =>
    if flags &&& 0x80 = 0 then some none
    else recvData[3]?.bind fun (code : UInt8) => (strlen (recvData.drop 12)).bind fun queryLen =>
      if queryLen = 0 ∨ 253 < queryLen then some none
      else if call.kzalloc then
        (getDnsQuery (recvData.drop 12) (replicate queryLen 0)).bind fun query =>
          -- the query is printed up to its NUL
          (strlen query).map fun length => some (call.report data flags code (query.take length))
      else some none

/-- `udp_recvmsg_handler` from the test of `iov_len` on. -/
def process (data : RecvData) : Option (Option Report) :=
  if data.iov.length < 20 then some none
  else if call.kmalloc && call.copies then call.udpProcessDns data (copied data.iov)
  else some none

/-- A call of `udp_recvmsg` with both handlers, and what it reports. -/
def recvmsg (data : RecvData) : Option (Option Report) :=
  match call.entryHandler data with
  | none => some none
  | some data =>
    match if data.dport = 0 then fromSender data else some data with
    | none => some none
    | some data => call.process data

end Call

/-! ## Names -/

def encoded (labels : List Bytes) : Bytes :=
  labels.flatMap fun label => UInt8.ofNat label.length :: label

def dotted (labels : List Bytes) : Bytes := [46].intercalate labels

structure Legal (labels : List Bytes) : Prop where
  label : ∀ label ∈ labels, 1 ≤ label.length ∧ label.length ≤ 63
  dotted : 1 ≤ (dotted labels).length ∧ (dotted labels).length ≤ 253

def Carries (iov : Bytes) (labels : List Bytes) : Prop :=
  ∃ header rest flags, header.length = 12 ∧ header[2]? = some flags ∧ flags &&& 0x80 ≠ 0 ∧
    iov = header ++ encoded labels ++ 0 :: rest

/-- What the loop writes for the bytes behind the first. -/
def walk : Nat → Bytes → Bytes
  | _, [] => []
  | 0, byte :: rest => 46 :: walk byte.toNat rest
  | flag + 1, byte :: rest => byte :: walk flag rest

@[simp]
theorem length_walk (flag : Nat) (bytes : Bytes) : (walk flag bytes).length = bytes.length := by
  fun_induction walk flag bytes <;> simp_all

theorem zero_not_mem_walk (flag : Nat) (bytes : Bytes) (clean : 0 ∉ bytes) :
    0 ∉ walk flag bytes := by
  fun_induction walk flag bytes <;> simp_all

theorem getDnsQueryLoop_eq {before old after bytes : Bytes} (flag : Nat) (rest : Bytes)
    (extent : old.length = bytes.length) :
    getDnsQueryLoop bytes.length (before.length + 1) flag (bytes ++ rest) (before ++ old ++ after) =
      some (before ++ walk flag bytes ++ after) := by
  induction bytes generalizing before old flag with
  | nil =>
    cases length_eq_zero_iff.mp extent
    cases flag <;> rfl
  | cons byte bytes ih =>
    obtain ⟨first, old, rfl⟩ := exists_cons_of_length_eq_add_one extent
    have stored (written : UInt8) : store (before ++ first :: old ++ after)
        ((before.length + 1 : Nat) - 1 : Int) written =
          some (before ++ [written] ++ old ++ after) := by
      have place : ((before.length + 1 : Nat) - 1 : Int) = (before.length : Nat) := by omega
      rw [place, store, if_pos (Int.natCast_nonneg _), Int.toNat_natCast]
      simpa using @Buffer.write_block _ [written] before
        (old ++ after) before.length [first] rfl rfl
    have later (flag : Nat) (written : UInt8) :=
      @ih (before ++ [written]) old flag (Nat.succ.inj extent)
    simp only [length_append, length_singleton] at later
    cases flag with
    | zero =>
      rw [length_cons, cons_append, getDnsQueryLoop, if_neg (by decide), if_pos (by decide), stored,
        bind_some, later]
      simp [walk]
    | succ flag =>
      have positive : ((flag + 1 : Nat) : Int) ≠ -1 ∧ ((flag + 1 : Nat) : Int) ≠ 0 := by omega
      have less : ((flag + 1 : Nat) : Int) - 1 = flag := by omega
      rw [length_cons, cons_append, getDnsQueryLoop, if_neg positive.1, if_neg positive.2,
        stored, bind_some, less, later]
      simp [walk]

theorem cText_append {name : Bytes} (clean : 0 ∉ name) (rest : Bytes) :
    cText (name ++ 0 :: rest) = name :=
  cText_of_take clean (by simp [take_append])

theorem strlen_append {name : Bytes} (clean : 0 ∉ name) (rest : Bytes) :
    strlen (name ++ 0 :: rest) = some name.length := by
  rw [strlen, if_pos (by simp), cText_append clean]

def asked (name : Bytes) : Bytes := walk (name.headD 0).toNat name.tail

theorem getDnsQuery_eq {name : Bytes} (clean : 0 ∉ name) (some : name ≠ []) (rest : Bytes) :
    getDnsQuery (name ++ 0 :: rest) (replicate name.length 0) = .some (asked name ++ [0]) := by
  obtain ⟨first, name, rfl⟩ := exists_cons_of_ne_nil some
  have looped := @getDnsQueryLoop_eq [] (replicate name.length 0) [0] name first.toNat
    (0 :: rest) length_replicate
  rw [getDnsQuery, strlen_append clean, bind_some, length_cons, cons_append,
    getDnsQueryLoop, if_pos rfl, replicate_succ']
  exact looped

variable {call : Call} {data : RecvData} {recvData name rest : Bytes} {flags code : UInt8}

theorem udpProcessDns_eq (isFlags : recvData[2]? = some flags) (isCode : recvData[3]? = some code)
    (clean : 0 ∉ name) (named : recvData.drop 12 = name ++ 0 :: rest) :
    call.udpProcessDns data recvData = some (if flags &&& 0x80 ≠ 0 ∧ name ≠ [] ∧ name.length ≤ 253 ∧
      call.kzalloc then some (call.report data flags code (asked name)) else none) := by
  rw [Call.udpProcessDns, isFlags, bind_some, isCode, bind_some, named,
    strlen_append clean, bind_some]
  by_cases reply : flags &&& 0x80 = 0
  · simp [reply]
  by_cases long : name.length = 0 ∨ 253 < name.length
  · rw [if_neg reply, if_pos long, if_neg]
    rintro ⟨_, nonempty, short, _⟩
    exact long.elim (fun none => nonempty (length_eq_zero_iff.mp none)) (by omega)
  cases isAllocated : call.kzalloc with
  | false => simp [reply]
  | true =>
    have nonempty : name ≠ [] := fun none => long (.inl (none ▸ rfl))
    have cleanAsked : 0 ∉ asked name :=
      zero_not_mem_walk _ _ fun listed => clean (mem_of_mem_tail listed)
    rw [if_neg reply, if_neg long, if_pos rfl, getDnsQuery_eq clean nonempty, bind_some,
      strlen_append cleanAsked, if_pos ⟨reply, nonempty, by omega, rfl⟩, map_some,
      take_left']
    rfl

/-! ## Labels -/

@[simp]
theorem dotted_cons (label : Bytes) (labels : List Bytes) :
    dotted (label :: labels) = label ++ labels.flatMap (46 :: ·) := by
  induction labels generalizing label with
  | nil => simp [dotted]
  | cons next labels ih =>
    rw [dotted, intercalate_cons_cons, ← dotted, ih]
    simp

@[simp]
theorem encoded_cons (label : Bytes) (labels : List Bytes) :
    encoded (label :: labels) = UInt8.ofNat label.length :: (label ++ encoded labels) := rfl

theorem walk_label (label rest : Bytes) :
    walk label.length (label ++ rest) = label ++ walk 0 rest := by
  induction label with
  | nil => rfl
  | cons byte label ih => exact congrArg (byte :: ·) ih

theorem walk_encoded {labels : List Bytes} (short : ∀ label ∈ labels, label.length ≤ 63) :
    walk 0 (encoded labels) = labels.flatMap (46 :: ·) := by
  induction labels with
  | nil => rfl
  | cons label labels ih =>
    obtain ⟨first, others⟩ := forall_mem_cons.mp short
    have size : (UInt8.ofNat label.length).toNat = label.length := by
      rw [UInt8.toNat_ofNat']
      omega
    rw [encoded_cons, walk, size, walk_label, ih others, flatMap_cons]
    rfl

variable {labels : List Bytes}

theorem Legal.encoded_spec (legal : Legal labels) :
    (encoded labels).length = (Dns.dotted labels).length + 1 ∧
      asked (encoded labels) = Dns.dotted labels ∧
        (0 ∈ encoded labels ↔ 0 ∈ Dns.dotted labels) := by
  obtain _ | ⟨first, labels⟩ := labels
  · exact absurd legal.dotted.1 (by decide)
  have sized : ∀ label ∈ first :: labels, (UInt8.ofNat label.length).toNat = label.length := by
    intro label listed
    have bounds := legal.label label listed
    rw [UInt8.toNat_ofNat']
    omega
  have positive : ∀ label ∈ first :: labels, (0 : UInt8) ≠ UInt8.ofNat label.length := by
    intro label listed isZero
    have size := sized label listed
    rw [← isZero] at size
    exact absurd (legal.label label listed).1 (by rw [← size]; decide)
  have short := forall_mem_cons.mp fun label listed => (legal.label label listed).2
  refine ⟨?_, ?_, ?_⟩
  · simp [encoded, length_flatMap]
  · rw [dotted_cons, ← walk_encoded short.2, ← walk_label, ← sized first mem_cons_self]
    rfl
  · obtain ⟨firstPositive, othersPositive⟩ := forall_mem_cons.mp positive
    rw [dotted_cons, encoded_cons, encoded]
    simp only [mem_cons, firstPositive, mem_append, mem_flatMap, false_or]
    refine or_congr_right (exists_congr fun label => and_congr_right fun listed => ?_)
    simp [othersPositive label listed]

/-- The bytes before the first NUL ask for the text of the name exactly when it has no NUL and less
than 253 characters. -/
theorem Legal.asked_iff (legal : Legal labels) (clean : 0 ∉ name) {tail : Bytes}
    (same : name ++ 0 :: rest = encoded labels ++ 0 :: tail) :
    (name ≠ [] ∧ name.length ≤ 253 ∧ asked name = Dns.dotted labels) ↔
      (Dns.dotted labels).length ≤ 252 ∧ 0 ∉ Dns.dotted labels := by
  obtain ⟨size, isAsked, zero⟩ := legal.encoded_spec
  by_cases nul : 0 ∈ Dns.dotted labels
  · refine iff_of_false ?_ (fun meets => meets.2 nul)
    rintro ⟨nonempty, _, isDotted⟩
    obtain ⟨front, back, isEncoded, cleanFront⟩ := eq_append_cons_of_mem (zero.mpr nul)
    have isFront : name = front := by
      rw [← cText_append clean rest, same, isEncoded, append_assoc, cons_append,
        cText_append cleanFront]
    have shorter := congrArg length isDotted
    rw [asked, length_walk, length_tail] at shorter
    rw [isEncoded, length_append, length_cons, ← isFront] at size
    have positive := length_pos_iff.mpr nonempty
    omega
  · have isName : name = encoded labels := by
      rw [← cText_append clean rest, same, cText_append (mt zero.mp nul)]
    rw [isName, size]
    refine ⟨fun meets => ⟨Nat.le_of_succ_le_succ meets.2.1, nul⟩, fun meets => ⟨?_, ?_, isAsked⟩⟩
    · exact ne_nil_of_length_eq_add_one size
    · exact Nat.succ_le_succ meets.1

theorem copied_eq (legal : Legal labels) {header : Bytes} (twelve : header.length = 12)
    (rest : Bytes) :
    ∃ tail, copied (header ++ encoded labels ++ 0 :: rest) =
      header ++ (encoded labels ++ 0 :: tail) := by
  have size := legal.encoded_spec.1
  have bound := legal.dotted.2
  have parts : header ++ encoded labels ++ 0 :: rest =
      header ++ encoded labels ++ [0] ++ rest := by simp
  rw [copied, parts, take_append, take_of_length_le]
  · simp only [append_assoc, cons_append]
    exact ⟨_, rfl⟩
  · simp only [length_append, length_singleton, twelve]
    split <;> omega

theorem process_spec (call : Call) (data : RecvData) :
    ∃ reported, call.process data = some reported ∧
    (∀ report ∈ reported, report.dport = data.dport) ∧
    ∀ labels, Legal labels → Carries data.iov labels →
      ((∃ report ∈ reported, report.query = dotted labels) ↔ 20 ≤ data.iov.length ∧
        (call.kmalloc && call.copies) = true ∧ call.kzalloc = true ∧
          (dotted labels).length ≤ 252 ∧ 0 ∉ dotted labels) := by
  rw [Call.process]
  by_cases small : data.iov.length < 20
  · rw [if_pos small]
    refine ⟨none, rfl, nofun, fun labels _ _ => iff_of_false (by simp) ?_⟩
    exact fun meets => absurd meets.1 (Nat.not_le.mpr small)
  rw [if_neg small]
  cases filled : call.kmalloc && call.copies with
  | false => exact ⟨none, rfl, nofun, fun labels _ _ => iff_of_false (by simp) (by simp)⟩
  | true =>
    have long : 20 < (copied data.iov).length := by
      rw [copied, length_append, length_take, length_singleton]
      split <;> omega
    have terminated : 0 ∈ (copied data.iov).drop 12 := by
      rw [copied, length_append, length_singleton] at long
      rw [copied, drop_append_of_le_length (by omega)]
      exact mem_concat_self
    obtain ⟨name, rest, named, clean⟩ := eq_append_cons_of_mem terminated
    obtain ⟨flags, isFlags⟩ : ∃ flags, (copied data.iov)[2]? = some flags :=
      ⟨_, getElem?_eq_getElem (by omega)⟩
    rw [if_pos rfl, udpProcessDns_eq isFlags (getElem?_eq_getElem (by omega)) clean named]
    refine ⟨_, rfl, ?_, ?_⟩
    · intro report isReport
      split at isReport <;> cases isReport
      rfl
    · rintro labels legal ⟨header, last, seen, twelve, isSeen, reply, isIov⟩
      obtain ⟨tail, isCopied⟩ := copied_eq legal twelve last
      rw [← isIov] at isCopied
      rw [isCopied, drop_left' twelve] at named
      rw [isCopied, getElem?_append_left (by omega), isSeen] at isFlags
      cases isFlags
      rw [← legal.asked_iff clean named.symm]
      constructor
      · rintro ⟨report, isReport, isDotted⟩
        split at isReport <;> cases isReport
        next meets =>
          exact ⟨Nat.not_lt.mp small, rfl, meets.2.2.2, meets.2.1, meets.2.2.1, isDotted⟩
      · rintro ⟨_, _, allocated, nonempty, short, isAsked⟩
        exact ⟨_, if_pos ⟨reply, nonempty, short, allocated⟩, isAsked⟩

/-! ## Sockets -/

theorem isDns_iff {port : UInt16} : isDns port = true ↔ port = 13568 ∨ port = 59668 :=
  decide_eq_true_iff

theorem recvmsg_connected (isPeer : isDns call.socket.dport = true) (isData : call.errQueue = false)
    (filled : 0 < call.msg.iov.length) : ∃ found, call.recvmsg data = call.process found ∧
      found.iov = call.msg.iov ∧ (found.dport = 53 ∨ found.dport = 5353) := by
  have port : call.socket.dport ≠ 0 ∧
      (ntohs call.socket.dport = 53 ∨ ntohs call.socket.dport = 5353) := by
    rcases isDns_iff.mp isPeer with same | same <;> rw [same] <;> decide
  have known : ntohs call.socket.dport ≠ 0 := by omega
  have hasPeer : (match call.family with
      | .inet => call.socket.daddr != 0
      | .inet6 => call.socket.dport != 0) = true := by
    cases call.family with
    | inet => exact bne_iff_ne.mpr (call.socket.connected port.1)
    | inet6 => exact bne_iff_ne.mpr port.1
  simp only [Call.recvmsg, Call.entryHandler, isData, isPeer, hasPeer, udpMsgParser, filled, known,
    Bool.false_eq_true, if_true, if_false]
  exact ⟨_, rfl, rfl, port.2⟩

theorem dport_udpMsgParser (msg : Msg) (data : RecvData) :
    (udpMsgParser msg data).dport = data.dport := by
  rw [udpMsgParser]
  split <;> rfl

theorem recvmsg_cases (call : Call) (data : RecvData) : call.recvmsg data = some none ∨
    ∃ found, call.recvmsg data = call.process found ∧
      (isDns call.socket.dport = true ∧ call.errQueue = false ∨
        found.dport = 13568 ∨ found.dport = 59668) := by
  rw [Call.recvmsg]
  split
  next => exact .inl rfl
  next entered isEntered =>
    split
    next => exact .inl rfl
    next found isFound =>
      refine .inr ⟨found, rfl, or_iff_not_imp_left.mpr fun notPeer => ?_⟩
      have isZero : entered.dport = 0 := by
        simp only [Call.entryHandler] at isEntered
        split at isEntered
        next => cases isEntered
        next isData =>
          split at isEntered
          next isPeer => exact absurd ⟨isPeer, Bool.eq_false_iff.mpr isData⟩ notPeer
          next =>
            split at isEntered <;> cases isEntered
            rfl
      rw [if_pos isZero, fromSender] at isFound
      split at isFound
      next port address iov _ =>
        split at isFound <;> cases isFound
        next isPort =>
          rw [dport_udpMsgParser]
          rcases isDns_iff.mp isPort with rfl | rfl
          · exact .inl rfl
          · exact .inr rfl
      next => cases isFound

/-- The handlers stay inside their buffers for every packet. The query of a legal name is reported
with its numeric port exactly on a socket that is connected to the port, if the text of the name has
less than 253 characters and no NUL, and nothing else fails. -/
theorem dns_reported_iff (call : Call) (data : RecvData) :
    ∃ reported, call.recvmsg data = some reported ∧
      ∀ labels, Legal labels → Carries call.msg.iov labels →
        ((∃ report ∈ reported, report.query = dotted labels ∧
            (report.dport = 53 ∨ report.dport = 5353)) ↔
          (isDns call.socket.dport = true ∧ call.errQueue = false) ∧ 20 ≤ call.msg.iov.length ∧
            (call.kmalloc && call.copies) = true ∧ call.kzalloc = true ∧
              (dotted labels).length ≤ 252 ∧ 0 ∉ dotted labels) := by
  by_cases reaches : (isDns call.socket.dport = true ∧ call.errQueue = false) ∧
    0 < call.msg.iov.length
  · obtain ⟨found, isProcess, sameIov, port⟩ :=
      @recvmsg_connected call data reaches.1.1 reaches.1.2 reaches.2
    obtain ⟨reported, processed, samePort, spec⟩ := process_spec call found
    refine ⟨reported, isProcess.trans processed, fun labels legal carries => ?_⟩
    rw [← sameIov] at carries ⊢
    rw [← spec labels legal carries, and_iff_right reaches.1]
    refine exists_congr fun report => and_congr_right fun isReport => and_iff_left ?_
    rwa [samePort report isReport]
  · have misses {labels : List Bytes} (carries : Carries call.msg.iov labels) :
        ¬ (isDns call.socket.dport = true ∧ call.errQueue = false) := by
      obtain ⟨header, _, _, twelve, _, _, isIov⟩ := carries
      refine fun connected => reaches ⟨connected, ?_⟩
      simp [isIov]
    rcases recvmsg_cases call data with isNone | ⟨found, isProcess, kind⟩
    · exact ⟨none, isNone, fun labels _ carries =>
        iff_of_false (by simp) fun meets => misses carries meets.1⟩
    · obtain ⟨reported, processed, samePort, _⟩ := process_spec call found
      refine ⟨reported, isProcess.trans processed, fun labels _ carries =>
        iff_of_false ?_ fun meets => misses carries meets.1⟩
      rintro ⟨report, isReport, _, port⟩
      rw [samePort report isReport] at port
      rcases kind with connected | kind
      · exact misses carries connected
      · omega

/-- A response in a socket with the given port of its peer, from port 53. -/
def response (dport : UInt16) (labels : List Bytes) : Call where
  family := .inet
  socket := ⟨0, dport, 1, 1, fun _ => by decide⟩
  msg := ⟨some (13568, 1), [0, 0, 0x80] ++ replicate 9 0 ++ encoded labels ++ replicate 8 0⟩
  errQueue := false
  kmalloc := true
  copies := true
  kzalloc := true

theorem dns_misreported :
    ((response 0 [[97]]).recvmsg ⟨0, 0, 0, 0, none, []⟩).map (Option.map fun report =>
        (report.query, report.dport)) = some (some ([97], 13568)) ∧
      (dotted [replicate 63 97, replicate 63 97, replicate 63 97,
        replicate 61 97]).length = 253 ∧
      ((response 13568 [replicate 63 97, replicate 63 97, replicate 63 97,
        replicate 61 97]).recvmsg ⟨0, 0, 0, 0, none, []⟩).map Option.isSome = some false := by
  decide +kernel

end Elkeid.Probe.Dns
