import Sipusu.MessageBroker.SpawnClient
import Sipusu.Protocol.Frame

/-!
# Packets and reads

The bytes a client sends, cut into reads in some way. The loop decodes one packet from
each read and drops the rest of it, so it dispatches the packets that were sent when the
cuts are where the packets end, up to a SUBSCRIBE packet that it cannot save.
-/

namespace Sipusu.MessageBroker

open Sipusu.Foundation Sipusu.Protocol V5

/-- The reads among what the turns of a loop get. -/
def readsOf (readings : List Reading) : List Bytes :=
  readings.filterMap fun reading =>
    match reading.read with
    | .ok readed => some readed
    | _ => none

/-- How the maps are iterated over in the turns that read something. -/
def iterationsOf (readings : List Reading) : List IterationOrder :=
  readings.filterMap fun reading =>
    match reading.read with
    | .ok _ => some reading.iteration
    | _ => none

/-- The client is alive at the head of each turn, and its `keep_alive` succeeds after each
read. -/
def KeptAlive (client : Client) : List Reading → Prop
  | [] => True
  | reading :: rest =>
      client.isAlive reading.t = true ∧
        match reading.read with
        | .ok _ => ∃ next, client.keepAliveAt (reading.t + 1) = .ok next ∧ KeptAlive next rest
        | .timedOut => KeptAlive client rest
        | .failed => False

/-- Reads that together return the bytes of the packets. -/
structure Delivers (frames : List ClientFrame) (reads : List Bytes) : Prop where
  nonempty : ∀ readed ∈ reads, readed ≠ []
  fits : ∀ readed ∈ reads, readed.length ≤ ClientTask.bufferLength
  whole : reads.flatten = (frames.map ClientFrame.wire).flatten

/-- Every read is one packet. A PINGREQ packet at the end may come in two reads: its first
octet is enough to dispatch it, and the second one then aborts the task. -/
def OnePacketEach (frames : List ClientFrame) (reads : List Bytes) : Prop :=
  reads = frames.map ClientFrame.wire ∨
    ∃ earlier, frames = earlier ++ [.pingReq] ∧
      reads = earlier.map ClientFrame.wire ++ [[0xC0], [0x00]]

/-- What is dispatched for a sequence of reads. -/
def received : List Bytes → List ClientPacketV5
  | [] => []
  | readed :: rest =>
      match ClientPacketV5.of? readed with
      | some packet => packet :: received rest
      | none => []

theorem received_eq_cons {reads : List Bytes} {packet : ClientPacketV5}
    {packets : List ClientPacketV5} (result : received reads = packet :: packets) :
    ∃ readed rest, reads = readed :: rest ∧ ClientPacketV5.of? readed = some packet ∧
      received rest = packets := by
  cases reads with
  | nil => cases result
  | cons readed rest =>
    rw [received] at result
    cases decoded : ClientPacketV5.of? readed with
    | none => simp [decoded] at result
    | some first =>
      rw [decoded, List.cons.injEq] at result
      exact ⟨readed, rest, rfl, by rw [decoded, result.1], result.2⟩

theorem received_cons {readed : Bytes} {packet : ClientPacketV5}
    (decoded : ClientPacketV5.of? readed = some packet) (rest : List Bytes) :
    received (readed :: rest) = packet :: received rest := by
  rw [received, decoded]

/-- The subscription file after the turn of a packet, if it reads back. -/
def savedFile (file : Bytes) (packet : ClientPacketV5) (iteration : IterationOrder) :
    Option Bytes :=
  match packet with
  | .subscribe request => (ClientStore.subscribe file request.list iteration).toOption
  | _ => some file

/-- What is dispatched of packets that are decoded one after another. -/
def saved (file : Bytes) : List (ClientPacketV5 × IterationOrder) → List ClientPacketV5
  | [] => []
  | (packet, iteration) :: rest =>
      packet :: match savedFile file packet iteration with
        | some after => saved after rest
        | none => []

/-- The subscription file reads back for every SUBSCRIBE packet but one at the end. -/
def FilesRead (file : Bytes) : List (ClientPacketV5 × IterationOrder) → Prop
  | [] | [_] => True
  | (.subscribe request, iteration) :: next :: rest => ∃ map, getSubscribed file = .ok map ∧
      FilesRead (writeSubscribed (iteration.order (mergeTopics map request.list))) (next :: rest)
  | (_, _) :: next :: rest => FilesRead file (next :: rest)

section Saving

variable {file : Bytes} {packet : ClientPacketV5} {iteration : IterationOrder}

/-- The condition for one packet, in terms of the file behind it. -/
theorem filesRead_cons {next : ClientPacketV5 × IterationOrder}
    {rest : List (ClientPacketV5 × IterationOrder)} :
    FilesRead file ((packet, iteration) :: next :: rest) ↔
      ∃ after, savedFile file packet iteration = some after ∧ FilesRead after (next :: rest) := by
  cases packet with
  | publish | pingReq => simp [FilesRead, savedFile]
  | subscribe request =>
    simp only [FilesRead, savedFile, ClientStore.subscribe]
    cases getSubscribed file with
    | ok map => simp
    | err | panic => simp

/-- Packets that are all dispatched found files that read back, whatever follows them. -/
theorem filesRead_of_saved {pairs more : List (ClientPacketV5 × IterationOrder)}
    (all : saved file (pairs ++ more) = pairs.map Prod.fst) : FilesRead file pairs := by
  induction pairs generalizing file with
  | nil => trivial
  | cons pair rest inductionHypothesis =>
    obtain ⟨packet, iteration⟩ := pair
    cases rest with
    | nil => simp [FilesRead]
    | cons next rest =>
      rw [filesRead_cons]
      simp only [List.cons_append, saved, List.map_cons, List.cons.injEq, true_and] at all
      cases wrote : savedFile file packet iteration with
      | none => simp [wrote] at all
      | some after =>
        rw [wrote] at all
        exact ⟨after, rfl, inductionHypothesis all⟩

theorem saved_of_filesRead {pairs : List (ClientPacketV5 × IterationOrder)}
    (read : FilesRead file pairs) : saved file pairs = pairs.map Prod.fst := by
  induction pairs generalizing file with
  | nil => rfl
  | cons pair rest inductionHypothesis =>
    obtain ⟨packet, iteration⟩ := pair
    rw [saved, List.map_cons]
    cases rest with
    | nil => cases savedFile file packet iteration <;> rfl
    | cons next rest =>
      obtain ⟨after, wrote, later⟩ := filesRead_cons.mp read
      rw [wrote]
      exact congrArg (packet :: ·) (inductionHypothesis later)

/-- The packets that are dispatched come first among those that are decoded. -/
theorem saved_isPrefix (file : Bytes) (pairs : List (ClientPacketV5 × IterationOrder)) :
    saved file pairs <+: pairs.map Prod.fst := by
  induction pairs generalizing file with
  | nil => exact List.prefix_rfl
  | cons pair rest inductionHypothesis =>
    obtain ⟨packet, iteration⟩ := pair
    rw [saved, List.map_cons, List.prefix_cons_inj]
    cases savedFile file packet iteration with
    | none => exact List.nil_prefix
    | some after => exact inductionHypothesis after

/-- How a turn ends whose packet is dispatched. -/
theorem save_eq (task : ClientTask) (packet : ClientPacketV5) (iteration : IterationOrder) :
    task.save packet iteration =
      match savedFile task.subscribed packet iteration with
      | some subscribed => (.dispatched packet, { task with subscribed })
      | none => (.unsaved packet, task) := by
  cases packet with
  | publish | pingReq => rfl
  | subscribe request =>
    rw [ClientTask.save, savedFile]
    cases ClientStore.subscribe task.subscribed request.list iteration <;> rfl

end Saving

/-- The loop of a client that is kept alive dispatches what its reads decode to, as far as it
is saved. -/
theorem listen_eq {client : Client} {readings : List Reading} (kept : KeptAlive client readings)
    (nonempty : ∀ readed ∈ readsOf readings, readed ≠ []) (buffer : Nat) (file : Bytes) :
    ClientTask.listen ⟨client, buffer, file⟩ readings =
      saved file ((received (readsOf readings)).zip (iterationsOf readings)) := by
  induction readings generalizing client file with
  | nil => rfl
  | cons reading rest inductionHypothesis =>
    obtain ⟨alive, afterwards⟩ := kept
    have early : reading.t ≤ (ClientTask.mk client buffer file).client.session.ttl := by
      simpa [Client.isAlive, Session.isAlive] using alive
    rw [ClientTask.listen]
    cases read : reading.read with
    | failed =>
      rw [read] at afterwards
      exact afterwards.elim
    | timedOut =>
      rw [read] at afterwards
      have later : readsOf (reading :: rest) = readsOf rest ∧
          iterationsOf (reading :: rest) = iterationsOf rest := by
        simp [readsOf, iterationsOf, read]
      rw [later.1] at nonempty ⊢
      rw [later.2, ClientTask.turn_of_timedOut early read]
      exact inductionHypothesis afterwards nonempty file
    | ok readed =>
      rw [read] at afterwards
      obtain ⟨next, kept, afterwards⟩ := afterwards
      have now : readsOf (reading :: rest) = readed :: readsOf rest ∧
          iterationsOf (reading :: rest) = reading.iteration :: iterationsOf rest := by
        simp [readsOf, iterationsOf, read]
      rw [now.1, List.forall_mem_cons] at nonempty
      rw [now.1, now.2, received]
      cases decoded : ClientPacketV5.of? readed with
      | none =>
        have undecodable : ∀ packet rest, ClientPacketV5.decode readed ≠ .ok (packet, rest) := by
          intro packet rest result
          rw [ClientPacketV5.of?_eq_some.mpr ⟨rest, result⟩] at decoded
          cases decoded
        rw [ClientTask.turn_of_undecodable early nonempty.1 read undecodable]
        rfl
      | some packet =>
        obtain ⟨left, result⟩ := ClientPacketV5.of?_eq_some.mp decoded
        rw [ClientTask.turn_of_packet early nonempty.1 read result, kept]
        simp only [save_eq, List.zip_cons_cons, saved]
        cases savedFile file packet reading.iteration with
        | none => rfl
        | some after =>
          exact congrArg (packet :: ·) (inductionHypothesis afterwards nonempty.2 after)

section Alignment

open ClientFrame (wire content Plain)

theorem OnePacketEach.cons {frames : List ClientFrame} {reads : List Bytes}
    (each : OnePacketEach frames reads) (frame : ClientFrame) :
    OnePacketEach (frame :: frames) (frame.wire :: reads) := by
  rcases each with same | ⟨earlier, sent, cut⟩
  · exact .inl (by rw [same, List.map_cons])
  · exact .inr ⟨frame :: earlier, by rw [sent, List.cons_append], by
      rw [cut, List.map_cons, List.cons_append]⟩

/-- Once a read ends inside a packet, or a packet was skipped, the reads stay ahead of the
packets they should be. -/
theorem received_ne_of_ahead {frames : List ClientFrame} (plain : ∀ frame ∈ frames, frame.Plain)
    {front : Bytes} (inside : front ≠ []) {reads : List Bytes}
    (split : front ++ reads.flatten = (frames.map wire).flatten) (extra : List ClientPacketV5) :
    received reads ≠ frames.map content ++ extra := by
  induction frames generalizing front reads with
  | nil => exact absurd (List.append_eq_nil_iff.mp split).1 inside
  | cons frame frames inductionHypothesis =>
    intro result
    obtain ⟨thisOne, others⟩ := List.forall_mem_cons.mp plain
    obtain ⟨readed, rest, rfl, decoded, remaining⟩ := received_eq_cons result
    rw [List.flatten_cons, List.map_cons, List.flatten_cons] at split
    have beyond := ClientFrame.length_lt_of_inside thisOne inside split decoded
    rw [← List.append_assoc] at split
    rcases List.append_eq_append_iff.mp split with ⟨back, short, _⟩ | ⟨back, long, later⟩
    · have lengths := congrArg List.length short
      rw [List.length_append] at lengths
      omega
    · have further : back ≠ [] := by
        rintro rfl
        rw [long, List.append_nil] at beyond
        exact Nat.lt_irrefl _ beyond
      exact inductionHypothesis others further later.symm remaining

/-- An octet that no packet starts with does not decode. -/
theorem of?_zero (tail : Bytes) : ClientPacketV5.of? (0x00 :: tail) = none := rfl

/-- What follows the first octet of a PINGREQ packet dispatches nothing. -/
theorem eq_of_torn {reads : List Bytes} {frames : List ClientFrame}
    (nonempty : ∀ readed ∈ reads, readed ≠ [])
    (split : reads.flatten = 0x00 :: (frames.map wire).flatten) {extra : List ClientPacketV5}
    (result : received reads = frames.map content ++ extra) : frames = [] ∧ reads = [[0x00]] := by
  cases reads with
  | nil => cases split
  | cons readed rest =>
    obtain ⟨now, later⟩ := List.forall_mem_cons.mp nonempty
    obtain ⟨first, tail, rfl⟩ := List.exists_cons_of_ne_nil now
    rw [List.flatten_cons, List.cons_append, List.cons.injEq] at split
    obtain ⟨rfl, split⟩ := split
    rw [received, of?_zero] at result
    obtain rfl := List.map_eq_nil_iff.mp (List.append_eq_nil_iff.mp result.symm).1
    obtain ⟨rfl, nothing⟩ := List.append_eq_nil_iff.mp split
    have finished : rest = [] := by
      cases rest with
      | nil => rfl
      | cons next others =>
        exact absurd (List.append_eq_nil_iff.mp nothing).1 (later next List.mem_cons_self)
    exact ⟨rfl, by rw [finished]⟩

/-- Without SUBSCRIBE properties, only reads of one packet each begin with the packets sent. -/
theorem onePacketEach_of_received {frames : List ClientFrame}
    (plain : ∀ frame ∈ frames, frame.Plain) {reads : List Bytes}
    (nonempty : ∀ readed ∈ reads, readed ≠ [])
    (split : reads.flatten = (frames.map wire).flatten) {extra : List ClientPacketV5}
    (result : received reads = frames.map content ++ extra) : OnePacketEach frames reads := by
  induction frames generalizing reads with
  | nil =>
    cases reads with
    | nil => exact .inl rfl
    | cons readed rest =>
      exact absurd (List.append_eq_nil_iff.mp split).1 (nonempty readed List.mem_cons_self)
  | cons frame frames inductionHypothesis =>
    obtain ⟨thisOne, others⟩ := List.forall_mem_cons.mp plain
    obtain ⟨readed, rest, rfl, decoded, remaining⟩ := received_eq_cons result
    obtain ⟨_, later⟩ := List.forall_mem_cons.mp nonempty
    have exactly (same : rest.flatten = (frames.map wire).flatten) :=
      (inductionHypothesis others later same remaining).cons frame
    rw [List.flatten_cons, List.map_cons, List.flatten_cons] at split
    rcases List.append_eq_append_iff.mp split with ⟨more, short, next⟩ | ⟨back, long, next⟩
    · by_cases cut : more = []
      · subst cut
        rw [List.append_nil] at short
        rw [← short]
        exact exactly next
      · obtain ⟨rfl, rfl, rfl⟩ := ClientFrame.eq_of_short short cut decoded
        obtain ⟨rfl, rfl⟩ := eq_of_torn later next remaining
        exact .inr ⟨[], rfl, rfl⟩
    · by_cases ended : back = []
      · subst ended
        rw [List.append_nil] at long
        rw [long]
        exact exactly next.symm
      · exact absurd remaining (received_ne_of_ahead others ended next.symm extra)

/-- Reads of one packet each dispatch the packets without SUBSCRIBE properties. -/
theorem received_map_wire {frames : List ClientFrame} (plain : ∀ frame ∈ frames, frame.Plain)
    (reads : List Bytes) :
    received (frames.map wire ++ reads) = frames.map content ++ received reads := by
  induction frames with
  | nil => rfl
  | cons frame frames inductionHypothesis =>
    obtain ⟨thisOne, others⟩ := List.forall_mem_cons.mp plain
    rw [List.map_cons, List.cons_append, received_cons (frame.of?_wire_iff.mpr thisOne),
      inductionHypothesis others, List.map_cons, List.cons_append]

/-- Reads of one packet each dispatch no SUBSCRIBE packet with properties as it was sent. -/
theorem plain_of_received {frames : List ClientFrame} {reads : List Bytes}
    {packets : List ClientPacketV5}
    (result : received (frames.map wire ++ reads) = frames.map content ++ packets) :
    ∀ frame ∈ frames, frame.Plain := by
  induction frames with
  | nil => exact List.forall_mem_nil _
  | cons frame frames inductionHypothesis =>
    obtain ⟨readed, rest, same, decoded, remaining⟩ := received_eq_cons result
    rw [List.map_cons, List.cons_append, List.cons.injEq] at same
    obtain ⟨rfl, rfl⟩ := same
    exact List.forall_mem_cons.mpr ⟨frame.of?_wire_iff.mp decoded, inductionHypothesis remaining⟩

theorem received_of_onePacketEach {frames : List ClientFrame} {reads : List Bytes}
    (plain : ∀ frame ∈ frames, frame.Plain) (each : OnePacketEach frames reads) :
    received reads = frames.map content := by
  rcases each with rfl | ⟨earlier, rfl, rfl⟩
  · have all := received_map_wire plain []
    rwa [List.append_nil, received, List.append_nil] at all
  · rw [received_map_wire fun frame sent => plain frame (List.mem_append_left _ sent),
      List.map_append]
    rfl

theorem plain_of_onePacketEach {frames : List ClientFrame} {reads : List Bytes}
    (each : OnePacketEach frames reads) {extra : List ClientPacketV5}
    (result : received reads = frames.map content ++ extra) :
    ∀ frame ∈ frames, frame.Plain := by
  rcases each with rfl | ⟨earlier, rfl, rfl⟩
  · exact plain_of_received (by rwa [List.append_nil] : received
      (frames.map wire ++ []) = frames.map content ++ extra)
  · rw [List.map_append, List.append_assoc] at result
    intro frame sent
    rcases List.mem_append.mp sent with before | last
    · exact plain_of_received result frame before
    · rw [List.mem_singleton.mp last]
      trivial

end Alignment

section Delivery

variable {file : Bytes} {readings : List Reading}

theorem length_received_le (reads : List Bytes) : (received reads).length ≤ reads.length := by
  induction reads with
  | nil => exact Nat.le_refl _
  | cons readed rest inductionHypothesis =>
    rw [received]
    cases ClientPacketV5.of? readed with
    | none => exact Nat.zero_le _
    | some packet => exact Nat.succ_le_succ inductionHypothesis

theorem length_iterationsOf (readings : List Reading) :
    (iterationsOf readings).length = (readsOf readings).length := by
  induction readings with
  | nil => rfl
  | cons reading rest inductionHypothesis =>
    cases read : reading.read <;> simpa [iterationsOf, readsOf, read] using inductionHypothesis

/-- Each packet that is decoded goes with an order. -/
theorem map_fst_received (readings : List Reading) :
    ((received (readsOf readings)).zip (iterationsOf readings)).map Prod.fst =
      received (readsOf readings) := by
  refine List.map_fst_zip ?_
  rw [length_iterationsOf]
  exact length_received_le _

theorem zip_append_left {α β : Type} (left more : List α) (right : List β) :
    (left ++ more).zip right = left.zip right ++ more.zip (right.drop left.length) := by
  induction left generalizing right with
  | nil => rfl
  | cons first left inductionHypothesis =>
    cases right with
    | nil => simp
    | cons second right => simp [inductionHypothesis]

/-- Packets that come first among those decoded and are all dispatched found files that read
back. -/
theorem filesRead_of_dispatched {packets : List ClientPacketV5}
    (dispatched : saved file ((received (readsOf readings)).zip (iterationsOf readings)) = packets) :
    ∃ extra, received (readsOf readings) = packets ++ extra ∧
      FilesRead file (packets.zip (iterationsOf readings)) := by
  have front := saved_isPrefix file ((received (readsOf readings)).zip (iterationsOf readings))
  rw [dispatched, map_fst_received] at front
  obtain ⟨extra, split⟩ := front
  have fits : packets.length ≤ (iterationsOf readings).length := by
    have bound := length_received_le (readsOf readings)
    rw [← split, List.length_append] at bound
    rw [length_iterationsOf]
    omega
  refine ⟨extra, split.symm, ?_⟩
  rw [← split, zip_append_left] at dispatched
  refine filesRead_of_saved (dispatched.trans ?_)
  rw [List.map_fst_zip fits]

end Delivery

/-- The packets sent are dispatched when each read is one packet, none is a SUBSCRIBE packet
with properties, and the subscription file reads back for each SUBSCRIBE packet before the last
packet. They are only dispatched when the file does, and given either of the other two, only
when both hold. -/
theorem listen_of_onePacketEach {client : Client} {file : Bytes} {readings : List Reading}
    (kept : KeptAlive client readings) {frames : List ClientFrame}
    (delivered : Delivers frames (readsOf readings)) :
    ((∀ frame ∈ frames, frame.Plain) ∧ OnePacketEach frames (readsOf readings) ∧
        FilesRead file ((frames.map ClientFrame.content).zip (iterationsOf readings)) →
      (ClientTask.spawn client file).listen readings = frames.map ClientFrame.content) ∧
    ((ClientTask.spawn client file).listen readings = frames.map ClientFrame.content →
      FilesRead file ((frames.map ClientFrame.content).zip (iterationsOf readings)) ∧
      ((∀ frame ∈ frames, frame.Plain) ↔ OnePacketEach frames (readsOf readings))) := by
  have dispatched : (ClientTask.spawn client file).listen readings =
      saved file ((received (readsOf readings)).zip (iterationsOf readings)) :=
    listen_eq kept delivered.nonempty _ file
  rw [dispatched]
  constructor
  · rintro ⟨plain, each, read⟩
    have all := received_of_onePacketEach plain each
    rw [← all] at read ⊢
    rw [saved_of_filesRead read, map_fst_received]
  · intro result
    obtain ⟨extra, front, read⟩ := filesRead_of_dispatched result
    refine ⟨read, fun plain => ?_, fun each => plain_of_onePacketEach each front⟩
    exact onePacketEach_of_received plain delivered.nonempty delivered.whole front

/-- A PUBLISH, a SUBSCRIBE and a PINGREQ packet, each read as it was sent. -/
theorem listen_of_onePacketEach_three :
    let client : Client :=
      { conid := ⟨1⟩, clid := .new ⟨[0x61], by decide⟩, protocolLevel := 5,
        session := ⟨90, 0, 60⟩, limit := ⟨none, none, none⟩ }
    let published : PublishFrame :=
      { dup := false, qos := .qos0, retain := false, topic := ⟨[0x74], by decide⟩,
        packetId := 0, entries := [], payload := [0x61], topicFits := by decide,
        entriesFit := List.forall_mem_nil _, distinct := List.Pairwise.nil, fits := by decide }
    let requested : SubscribeFrame :=
      { id := 7, properties := [], propertiesFit := List.forall_mem_nil _, fits := by decide
        filters := [⟨⟨[0x74], by decide⟩, 0x01, .qos1, by decide, by decide⟩] }
    let frames : List ClientFrame := [.publish published, .subscribe requested, .pingReq]
    (ClientTask.spawn client []).listen [⟨0, .ok published.wire, 1, .listed⟩,
        ⟨1, .ok requested.wire, 2, .listed⟩, ⟨2, .timedOut, 3, .listed⟩,
        ⟨3, .ok [0xC0, 0x00], 4, .listed⟩] = frames.map ClientFrame.content := by
  intro client published requested frames
  have renews (ttl t : Nat) (ahead : t < ttl) :
      Client.keepAliveAt { client with session := ⟨ttl, 0, 60⟩ } t =
        .ok { client with session := ⟨t + 90, 0, 60⟩ } := by
    have span : (60 : UInt16).toNat + (60 : UInt16).toNat / 2 = 90 := by decide
    rw [Client.keepAliveAt_eq (show (60 : UInt16).toNat ≤ 43690 by decide),
      if_neg (Nat.not_le.mpr ahead)]
    simp only [span]
  have kept : KeptAlive client [⟨0, .ok published.wire, 1, .listed⟩,
      ⟨1, .ok requested.wire, 2, .listed⟩, ⟨2, .timedOut, 3, .listed⟩,
      ⟨3, .ok [0xC0, 0x00], 4, .listed⟩] :=
    ⟨rfl, _, renews 90 1 (by decide), rfl, _, renews 91 2 (by decide), rfl, rfl, _,
      renews 92 4 (by decide), trivial⟩
  have delivered : Delivers frames [published.wire, requested.wire, [0xC0, 0x00]] :=
    ⟨by decide, by decide, rfl⟩
  refine (listen_of_onePacketEach kept delivered).1 ⟨?_, .inl rfl, [], rfl, trivial⟩
  simp [frames, ClientFrame.Plain, requested]

/-- A PUBLISH and a PINGREQ packet in one read: one packet is dispatched, with the other one
at the end of its payload. -/
theorem listen_joins_packets :
    let client : Client :=
      { conid := ⟨1⟩, clid := .new ⟨[0x61], by decide⟩, protocolLevel := 5,
        session := ⟨90, 0, 60⟩, limit := ⟨none, none, none⟩ }
    let frame : PublishFrame :=
      { dup := false, qos := .qos0, retain := false, topic := ⟨[0x74], by decide⟩,
        packetId := 0, entries := [], payload := [0x61], topicFits := by decide,
        entriesFit := List.forall_mem_nil _, distinct := List.Pairwise.nil, fits := by decide }
    let frames : List ClientFrame := [.publish frame, .pingReq]
    let readings : List Reading := [⟨0, .ok (frame.wire ++ [0xC0, 0x00]), 1, .listed⟩]
    KeptAlive client readings ∧ Delivers frames (readsOf readings) ∧
      (ClientTask.spawn client []).listen readings =
        [.publish (frame.contentWith [0xC0, 0x00])] ∧
      (ClientTask.spawn client []).listen readings ≠ frames.map ClientFrame.content := by
  intro client frame frames readings
  have kept : KeptAlive client readings :=
    ⟨by decide, _, Client.keepAliveAt_eq (by decide) 1, trivial⟩
  have delivered : Delivers frames (readsOf readings) := ⟨by decide, by decide, rfl⟩
  have result : (ClientTask.spawn client []).listen readings =
      [.publish (frame.contentWith [0xC0, 0x00])] := by
    have decoded : received (readsOf readings) = [.publish (frame.contentWith [0xC0, 0x00])] :=
      received_cons (ClientFrame.of?_publish_wire frame [0xC0, 0x00]) []
    rw [ClientTask.spawn, listen_eq kept delivered.nonempty, decoded]
    rfl
  refine ⟨kept, delivered, result, ?_⟩
  rw [result]
  intro same
  cases congrArg List.length same

/-- A topic with a newline in it is saved, and the next SUBSCRIBE packet ends the task. -/
theorem listen_stops_unsaved :
    let client : Client :=
      { conid := ⟨1⟩, clid := .new ⟨[0x61], by decide⟩, protocolLevel := 5,
        session := ⟨90, 0, 60⟩, limit := ⟨none, none, none⟩ }
    let broken : Subscribe := ⟨⟨[0x61, 0x0A, 0x62], by decide⟩, .qos0⟩
    let later : Subscribe := ⟨⟨[0x74], by decide⟩, .qos0⟩
    (ClientTask.spawn client []).listen [
        ⟨0, .ok [0x82, 0x09, 0x00, 0x01, 0x00, 0x00, 0x03, 0x61, 0x0A, 0x62, 0x00], 1, .listed⟩,
        ⟨1, .ok [0x82, 0x07, 0x00, 0x02, 0x00, 0x00, 0x01, 0x74, 0x00], 2, .listed⟩,
        ⟨2, .ok [0xC0, 0x00], 3, .listed⟩] =
      [.subscribe ⟨1, [broken]⟩, .subscribe ⟨2, [later]⟩] := by
  decide

end Sipusu.MessageBroker
