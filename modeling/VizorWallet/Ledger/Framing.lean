import VizorWallet.Ledger.Serializer

/-!
# HID framing of Ledger commands

A command or an answer travels in reports of 64 bytes: channel, tag and sequence number, then a part
of the bytes, of which the first two are the length. Reports are read one by one until the declared
length has arrived.

## Main definitions

* `hidPackets`, `writeApdu` — the packets that carry some bytes.
* `readApdu` — the bytes that polls of the device bring.
* `Brings`, `Faulty` — polls that bring some reports, and reports that do not begin with all of
  them in their order.
* `Disturbed` — one report is lost, comes once more or is out of order.

## Main results

* `readApdu_bring` — the reports of some bytes bring these bytes.
* `readApdu_of_not_isPrefix` — other sequences of these reports are reported as errors.
-/

namespace VizorWallet.Ledger

def LEDGER_CHANNEL : ℕ := 0x0101
def LEDGER_TAG : UInt8 := 0x05
def HID_WRITE_SIZE : ℕ := 65

/-- A `u16` from its bytes, the highest first. -/
def fromU16be (high low : UInt8) : ℕ := high.toNat * 256 + low.toNat

/-! ## Writing -/

/-- The bytes with their length before them. -/
def framed (command : Bytes) : Bytes := beBytes 2 command.length ++ command

/-- A packet: the report id, the header, and a part of the bytes, filled up with zeros. -/
def hidPacket (sequence : ℕ) (chunk : Bytes) : Bytes :=
  0 :: beBytes 2 LEDGER_CHANNEL ++ [LEDGER_TAG] ++ beBytes 2 sequence ++ chunk ++
    List.replicate (HID_WRITE_SIZE - 6 - chunk.length) 0

/-- The packets are written one after the other, while the operation goes on and the device takes
them whole. -/
def writeApdu (check : ℕ → Except String Unit) (write : Bytes → Except String ℕ) (command : Bytes) :
    Except String (List Bytes) :=
  (chunks (HID_WRITE_SIZE - 6) (framed command)).zipIdx.mapM fun (chunk, sequence) => do
    check sequence
    ensure (sequence < 2 ^ 16) "Ledger HID request requires too many packets"
    let packet := hidPacket sequence chunk
    let written ← write packet
    ensure (written = packet.length)
      "Ledger HID request was only partially written; reconnect and retry"
    return packet

/-! ## Reading -/

structure ReadState where
  answer : Bytes
  expectedLen : ℕ
  expectedSequence : ℕ

/-- What one poll brings, which is nothing when it timed out. The operation is stopped after the
last poll. The result comes with the polls that were not made. -/
def readPolls (stopped : String) : ReadState → List Bytes → Except String (Bytes × List Bytes)
  | _, [] => .error stopped
  | state, packet :: polls =>
    if packet = [] then readPolls stopped state polls
    else do
      ensure (¬ (packet.length < 5 ∨ state.expectedSequence = 0 ∧ packet.length < 7))
        "Ledger HID response had an incomplete header"
      ensure (fromU16be (packet.getD 0 0) (packet.getD 1 0) = LEDGER_CHANNEL)
        "Ledger HID response used an unexpected channel"
      ensure (packet.getD 2 0 = LEDGER_TAG) "Ledger HID response used an unexpected tag"
      ensure (fromU16be (packet.getD 3 0) (packet.getD 4 0) = state.expectedSequence)
        "Ledger HID response packets arrived out of sequence"
      let expectedLen :=
        if state.expectedSequence = 0 then fromU16be (packet.getD 5 0) (packet.getD 6 0)
        else state.expectedLen
      let payloadStart := if state.expectedSequence = 0 then 7 else 5
      let missing := expectedLen - state.answer.length
      let available := packet.length - payloadStart
      let take := min missing available
      let answer := state.answer ++ (packet.drop payloadStart).take take
      if answer.length = expectedLen then return (answer, polls)
      else do
        ensure (take ≠ 0) "Ledger HID response packet contained no payload"
        ensure (state.expectedSequence + 1 < 2 ^ 16) "Ledger HID response requires too many packets"
        readPolls stopped ⟨answer, expectedLen, state.expectedSequence + 1⟩ polls

def readApdu (stopped : String) (polls : List Bytes) : Except String (Bytes × List Bytes) :=
  readPolls stopped ⟨[], 0, 0⟩ polls

/-! ## Reports -/

/-- The packets of some bytes. -/
def hidPackets (command : Bytes) : List Bytes :=
  (chunks (HID_WRITE_SIZE - 6) (framed command)).zipIdx.map fun entry => hidPacket entry.2 entry.1

/-- The reports that arrive: the packets without the report id. -/
def reports (command : Bytes) : List Bytes := (hidPackets command).map List.tail

/-- Polls that bring some reports, with any number of polls that bring nothing before each. -/
inductive Brings : List Bytes → List Bytes → Prop
  | done : Brings [] []
  | report (idle : ℕ) (report : Bytes) {polls rest : List Bytes} (h : Brings polls rest) :
      Brings (List.replicate idle [] ++ report :: polls) (report :: rest)

/-- Some of the sent reports arrive, but they do not begin with all of them in their order. -/
def Faulty (sent received : List Bytes) : Prop :=
  (∀ report ∈ received, report ∈ sent) ∧ ¬ sent <+: received

/-- One of some reports is lost, comes once more before the last of them, or they are out of
order. -/
inductive Disturbed (sent : List Bytes) : List Bytes → Prop
  | dropped (index : ℕ) (h : index < sent.length) : Disturbed sent (sent.eraseIdx index)
  | duplicated (index place : ℕ) (report : Bytes) (hreport : sent[index]? = some report)
      (hplace : place < sent.length) (h : place + 1 < sent.length ∨ index ≠ place) :
      Disturbed sent (sent.insertIdx place report)
  | reordered (received : List Bytes) (h : received.Perm sent) (hne : received ≠ sent) :
      Disturbed sent received

variable {command : Bytes} {stopped : String}

/-- The packets that are written are those of the bytes. -/
theorem writeApdu_ok {check : ℕ → Except String Unit} {write : Bytes → Except String ℕ}
    {packets : List Bytes} (h : writeApdu check write command = .ok packets) :
    packets = hidPackets command := by
  have hall := mapM_eq_ok.1 h
  have heach : List.Forall₂ (fun entry packet => hidPacket entry.2 entry.1 = packet)
      (chunks (HID_WRITE_SIZE - 6) (framed command)).zipIdx packets := by
    refine hall.imp fun entry packet hpacket => ?_
    simp only [bind_eq_ok, ensure_eq_ok, pure_eq_ok] at hpacket
    obtain ⟨-, -, -, -, -, -, -, -, hpacket⟩ := hpacket
    exact hpacket
  exact (List.forall₂_eq_eq_eq ▸ List.forall₂_map_left_iff.2 heach).symm

/-! ## One report -/

/-- The number of reports of some bytes. -/
def reportCount (command : Bytes) : ℕ := (command.length + 60) / 59

def report (command : Bytes) (index : ℕ) : Bytes :=
  (hidPacket index (((framed command).drop (index * 59)).take 59)).tail

theorem length_framed : (framed command).length = command.length + 2 := by
  rw [framed, List.length_append, length_beBytes, Nat.add_comm]

theorem reports_eq : reports command = (List.range (reportCount command)).map (report command) := by
  have hcount : ((framed command).length + (HID_WRITE_SIZE - 6) - 1) / (HID_WRITE_SIZE - 6) =
      reportCount command := by
    rw [length_framed]
    rfl
  unfold reports hidPackets chunks
  rw [hcount]
  apply List.ext_getElem
  · simp
  · intro index h h'
    simp [report, HID_WRITE_SIZE]

/-- The header of a report, and the part of the bytes that it carries. -/
theorem report_eq (command : Bytes) (index : ℕ) : report command index =
    1 :: 1 :: 5 :: UInt8.ofNat (index / 256) :: UInt8.ofNat index ::
      (((framed command).drop (index * 59)).take 59 ++
        List.replicate (59 - (((framed command).drop (index * 59)).take 59).length) 0) := rfl

theorem length_report (command : Bytes) (index : ℕ) : (report command index).length = 64 := by
  rw [report_eq]
  simp only [List.length_cons, List.length_append, List.length_replicate]
  have := List.length_take_le 59 ((framed command).drop (index * 59))
  omega

theorem fromU16be_ofNat {value : ℕ} (h : value < 2 ^ 16) :
    fromU16be (UInt8.ofNat (value / 256)) (UInt8.ofNat value) = value := by
  simp only [fromU16be, UInt8.toNat_ofNat']
  omega

/-- What has been read after some reports. -/
def readAfter (command : Bytes) (count : ℕ) : ReadState :=
  ⟨command.take (count * 59 - 2), if count = 0 then 0 else command.length, count⟩

theorem readPolls_idle (state : ReadState) (idle : ℕ) (polls : List Bytes) :
    readPolls stopped state (List.replicate idle [] ++ polls) = readPolls stopped state polls := by
  induction idle with
  | zero => rfl
  | succ idle ih =>
    rw [List.replicate_succ, List.cons_append, readPolls, if_pos rfl, ih]

/-- A report has a whole header, and its sequence number is its index. -/
theorem report_header (command : Bytes) {index : ℕ} (hindex : index < 2 ^ 16) :
    (report command index).length = 64 ∧ report command index ≠ [] ∧
      fromU16be ((report command index).getD 0 0) ((report command index).getD 1 0) =
        LEDGER_CHANNEL ∧
      (report command index).getD 2 0 = LEDGER_TAG ∧
      fromU16be ((report command index).getD 3 0) ((report command index).getD 4 0) = index := by
  refine ⟨length_report command index, ?_⟩
  simp only [report_eq, List.getD_cons_zero, List.getD_cons_succ, fromU16be_ofNat hindex, ne_eq,
    reduceCtorEq, not_false_eq_true, and_true, true_and]
  decide

/-- A report that is not the next one is an error. -/
theorem readPolls_wrong {state : ReadState} {index : ℕ} (hindex : index < 2 ^ 16)
    (hne : index ≠ state.expectedSequence) (polls : List Bytes) :
    readPolls stopped state (report command index :: polls) =
      .error "Ledger HID response packets arrived out of sequence" := by
  obtain ⟨hlength, hnil, hchannel, htag, hsequence⟩ := report_header command hindex
  rw [readPolls, if_neg hnil, ensure_of _ (by omega), ok_bind, ensure_of _ hchannel, ok_bind,
    ensure_of _ htag, ok_bind, ensure, if_neg (hsequence.trans_ne hne)]
  rfl

/-- The first report also carries the length. -/
def payloadStart (count : ℕ) : ℕ := if count = 0 then 7 else 5

theorem drop_framed {start : ℕ} (h : 2 ≤ start) :
    (framed command).drop start = command.drop (start - 2) := by
  rw [framed, List.drop_append, length_beBytes, List.drop_of_length_le (by rwa [length_beBytes]),
    List.nil_append]

/-- The payload of a report is a part of the bytes, filled up. -/
theorem drop_report (command : Bytes) (count : ℕ) : ∃ padding,
    (report command count).drop (payloadStart count) =
      (command.drop (count * 59 - 2)).take (64 - payloadStart count) ++ padding := by
  refine ⟨List.replicate (59 - (((framed command).drop (count * 59)).take 59).length) 0, ?_⟩
  cases count with
  | zero => rfl
  | succ count =>
    have hbody : (report command (count + 1)).drop 5 =
        ((framed command).drop ((count + 1) * 59)).take 59 ++
          List.replicate (59 - (((framed command).drop ((count + 1) * 59)).take 59).length) 0 := rfl
    rw [payloadStart, if_neg (Nat.succ_ne_zero _), hbody, drop_framed (by omega)]

theorem first_length (hlength : command.length < 2 ^ 16) :
    fromU16be ((report command 0).getD 5 0) ((report command 0).getD 6 0) = command.length := by
  have hframed : framed command =
      UInt8.ofNat (command.length / 256) :: UInt8.ofNat command.length :: command := rfl
  rw [report_eq, hframed]
  exact fromU16be_ofNat hlength

/-- What has been read after the next report. -/
theorem answer_next {count : ℕ} (hcount : count < reportCount command) :
    let taken := min (command.length - (readAfter command count).answer.length)
      (64 - payloadStart count)
    (readAfter command count).answer ++
        ((report command count).drop (payloadStart count)).take taken =
      command.take ((count + 1) * 59 - 2) ∧
    (command.take ((count + 1) * 59 - 2)).length =
      (readAfter command count).answer.length + taken := by
  unfold reportCount at hcount
  have hstart : payloadStart count = 7 ∧ count = 0 ∨ payloadStart count = 5 ∧ count ≠ 0 := by
    unfold payloadStart
    split <;> simp [*]
  have hanswer : (readAfter command count).answer.length = count * 59 - 2 := by
    rw [readAfter, List.length_take]
    omega
  obtain ⟨padding, hdrop⟩ := drop_report command count
  have hend : (count + 1) * 59 - 2 = (count * 59 - 2) + (64 - payloadStart count) := by omega
  refine ⟨?_, by rw [hanswer, List.length_take]; omega⟩
  rw [hanswer, hdrop, List.take_append_of_le_length (by simp), List.take_take, readAfter, hend,
    List.take_add]
  congr 1
  rw [List.take_eq_take_iff, List.length_drop]
  omega

/-- The next report ends the answer, or brings the reading on. -/
theorem readPolls_next {count : ℕ} (hlength : command.length < 2 ^ 16)
    (hcount : count < reportCount command) (polls : List Bytes) :
    readPolls stopped (readAfter command count) (report command count :: polls) =
      if count + 1 = reportCount command then .ok (command, polls)
      else readPolls stopped (readAfter command (count + 1)) polls := by
  have hindex : count + 1 < 2 ^ 16 := by
    unfold reportCount at hcount
    omega
  obtain ⟨hsize, hnil, hchannel, htag, hsequence⟩ :=
    report_header command (Nat.lt_of_succ_lt hindex)
  obtain ⟨hanswer, hgrown⟩ := answer_next hcount
  have hexpected : (if count = 0 then
      fromU16be ((report command count).getD 5 0) ((report command count).getD 6 0)
      else (readAfter command count).expectedLen) = command.length := by
    split
    · rename_i hzero
      subst hzero
      exact first_length hlength
    · rename_i hzero
      exact if_neg hzero
  have hcomplete : (command.take ((count + 1) * 59 - 2)).length = command.length ↔
      count + 1 = reportCount command := by
    unfold reportCount at hcount ⊢
    rw [List.length_take]
    omega
  have hstart : (if count = 0 then 7 else 5) = payloadStart count := rfl
  have hcount' : (readAfter command count).expectedSequence = count := rfl
  rw [readPolls, if_neg hnil, ensure_of _ (by omega), ok_bind, ensure_of _ hchannel, ok_bind,
    ensure_of _ htag, ok_bind, hcount', ensure_of _ hsequence, ok_bind]
  simp only [hexpected, hstart, hsize, hanswer, hcomplete]
  split
  · rename_i hlast
    have hall := hcomplete.2 hlast
    rw [List.length_take] at hall
    rw [List.take_of_length_le (by omega)]
    rfl
  · rename_i hmore
    have htaken : min (command.length - (readAfter command count).answer.length)
        (64 - payloadStart count) ≠ 0 := by
      intro hzero
      have hshort := hcomplete.not.2 hmore
      rw [hzero, readAfter, List.length_take, List.length_take] at hgrown
      rw [List.length_take] at hshort
      omega
    rw [ensure_of _ htaken, ok_bind, ensure_of _ hindex, ok_bind]
    rfl

/-! ## Sequences of reports -/

theorem reportCount_pos (command : Bytes) : 0 < reportCount command := by
  unfold reportCount
  omega

theorem drop_reports {count : ℕ} (hcount : count < reportCount command) :
    (reports command).drop count = report command count :: (reports command).drop (count + 1) := by
  rw [reports_eq, List.drop_eq_getElem_cons (by simpa using hcount)]
  simp

theorem length_reports : (reports command).length = reportCount command := by
  rw [reports_eq, List.length_map, List.length_range]

/-- The reports that are left bring what is left. -/
theorem readPolls_brings (hlength : command.length < 2 ^ 16) {polls left : List Bytes}
    (h : Brings polls left) {count : ℕ} (hcount : count < reportCount command)
    (hleft : left = (reports command).drop count) (later : List Bytes) :
    readPolls stopped (readAfter command count) (polls ++ later) = .ok (command, later) := by
  induction h generalizing count with
  | done =>
    rw [drop_reports hcount] at hleft
    nomatch hleft
  | @report idle packet polls rest h ih =>
    obtain ⟨rfl, rfl⟩ := List.cons.inj (hleft.trans (drop_reports hcount))
    rw [List.append_assoc, readPolls_idle, List.cons_append, readPolls_next hlength hcount]
    split
    · rename_i hlast
      rw [List.drop_of_length_le (by rw [length_reports, hlast])] at h
      cases h
      rfl
    · rename_i hmore
      exact ih (by omega) rfl

/-- Unless the reports that are left come in their order, the reading fails. -/
theorem readPolls_of_not_isPrefix (hlength : command.length < 2 ^ 16) {polls : List Bytes}
    (hpolls : ∀ packet ∈ polls, packet = [] ∨ packet ∈ reports command) {count : ℕ}
    (hcount : count < reportCount command)
    (h : ¬ (reports command).drop count <+: polls.filter (· ≠ [])) :
    ∃ error, readPolls stopped (readAfter command count) polls = .error error := by
  induction polls generalizing count with
  | nil => exact ⟨stopped, rfl⟩
  | cons packet polls ih =>
    obtain ⟨hpacket, hrest⟩ := List.forall_mem_cons.1 hpolls
    obtain rfl | hpacket := hpacket
    · rw [readPolls, if_pos rfl]
      exact ih hrest hcount h
    · rw [reports_eq] at hpacket
      obtain ⟨index, hindex, rfl⟩ := List.mem_map.1 hpacket
      rw [List.mem_range] at hindex
      have hindex' : index < 2 ^ 16 := by
        unfold reportCount at hindex
        omega
      obtain ⟨-, hnil, -⟩ := report_header command hindex'
      by_cases hnext : index = count
      · subst hnext
        rw [List.filter_cons_of_pos (by simpa using hnil), drop_reports hcount,
          List.cons_prefix_cons] at h
        have hmore : index + 1 ≠ reportCount command := by
          intro hlast
          refine h ⟨rfl, ?_⟩
          rw [List.drop_of_length_le (by rw [length_reports, hlast])]
          exact List.nil_prefix
        rw [readPolls_next hlength hcount, if_neg hmore]
        exact ih hrest (by omega) fun hbegins => h ⟨rfl, hbegins⟩
      · exact ⟨_, readPolls_wrong hindex' hnext polls⟩

/-- Every poll brings nothing or a report, but not all reports in their order. -/
theorem readApdu_of_not_isPrefix (hlength : command.length < 2 ^ 16) {polls : List Bytes}
    (hpolls : ∀ packet ∈ polls, packet = [] ∨ packet ∈ reports command)
    (h : ¬ reports command <+: polls.filter (· ≠ [])) :
    ∃ error, readApdu stopped polls = .error error := by
  have hstart : readAfter command 0 = ⟨[], 0, 0⟩ := by simp [readAfter]
  rw [readApdu, ← hstart]
  exact readPolls_of_not_isPrefix hlength hpolls (reportCount_pos command) h

/-! ## Faults -/

theorem report_injOn (hlength : command.length < 2 ^ 16) {index index' : ℕ}
    (hindex : index < reportCount command) (hindex' : index' < reportCount command)
    (h : report command index = report command index') : index = index' := by
  unfold reportCount at hindex hindex'
  have hlt : index < 2 ^ 16 := by omega
  have hlt' : index' < 2 ^ 16 := by omega
  obtain ⟨-, -, -, -, hsequence⟩ := report_header command hlt
  obtain ⟨-, -, -, -, hsequence'⟩ := report_header command hlt'
  rw [← hsequence, ← hsequence', h]

theorem getElem?_reports {index : ℕ} {packet : Bytes}
    (h : (reports command)[index]? = some packet) :
    index < reportCount command ∧ packet = report command index := by
  rw [reports_eq, List.getElem?_map, Option.map_eq_some_iff] at h
  obtain ⟨_, hindex, rfl⟩ := h
  obtain ⟨hlt, rfl⟩ := List.getElem?_eq_some_iff.1 hindex
  rw [List.length_range] at hlt
  exact ⟨hlt, by rw [List.getElem_range]⟩

/-- A report that comes once more is in the place of another one. -/
theorem not_isPrefix_insertIdx (hlength : command.length < 2 ^ 16) {index place : ℕ}
    {packet : Bytes} (hpacket : (reports command)[index]? = some packet)
    (hplace : place < reportCount command) (h : place + 1 < reportCount command ∨ index ≠ place) :
    ¬ reports command <+: (reports command).insertIdx place packet := by
  intro hbegins
  have hplace' : place < (reports command).length := length_reports ▸ hplace
  have hat (i : ℕ) (hi : i < reportCount command) :
      ((reports command).insertIdx place packet)[i]? = some (report command i) := by
    have hlt : i < (reports command).length := length_reports ▸ hi
    obtain ⟨-, hreport⟩ := getElem?_reports (List.getElem?_eq_getElem hlt)
    rw [List.prefix_iff_getElem?.1 hbegins i hlt, hreport]
  obtain ⟨hindex, rfl⟩ := getElem?_reports hpacket
  have hsame : index = place := by
    have hcopy := hat place hplace
    rw [List.getElem?_insertIdx_self, if_pos hplace'.le] at hcopy
    exact report_injOn hlength hindex hplace (Option.some.inj hcopy)
  subst hsame
  have hmore : index + 1 < reportCount command := h.resolve_right (absurd rfl)
  -- the report after the doubled one would be that one again
  have hagain := hat (index + 1) hmore
  rw [List.getElem?_insertIdx_of_gt (Nat.lt_succ_self _), Nat.succ_sub_one, hpacket] at hagain
  exact absurd (report_injOn hlength hindex hmore (Option.some.inj hagain))
    (Nat.succ_ne_self _).symm

theorem Disturbed.faulty (hlength : command.length < 2 ^ 16) {received : List Bytes}
    (h : Disturbed (reports command) received) : Faulty (reports command) received := by
  cases h with
  | dropped index h =>
    refine ⟨fun packet => List.mem_of_mem_eraseIdx, fun hbegins => ?_⟩
    have := hbegins.length_le
    rw [List.length_eraseIdx_of_lt h] at this
    omega
  | duplicated index place packet hpacket hplace h =>
    rw [length_reports] at hplace h
    refine ⟨fun other hother => ?_, not_isPrefix_insertIdx hlength hpacket hplace h⟩
    obtain rfl | hmem := List.eq_or_mem_of_mem_insertIdx hother
    · exact List.mem_of_getElem? hpacket
    · exact hmem
  | reordered _ h hne =>
    exact ⟨fun packet => h.mem_iff.1, fun hbegins =>
      hne (hbegins.eq_of_length h.length_eq.symm).symm⟩

/-- Polls that bring some reports first can be cut after the last of them. -/
theorem exists_brings {polls sent : List Bytes} (h : sent <+: polls.filter (· ≠ [])) :
    ∃ used later, polls = used ++ later ∧ Brings used sent := by
  induction polls generalizing sent with
  | nil =>
    obtain rfl := List.prefix_nil.1 h
    exact ⟨[], [], rfl, .done⟩
  | cons packet polls ih =>
    cases sent with
    | nil => exact ⟨[], packet :: polls, rfl, .done⟩
    | cons first sent =>
      by_cases hnil : packet = []
      · subst hnil
        obtain ⟨used, later, rfl, hbrings⟩ := ih h
        cases hbrings with
        | report idle _ hrest =>
          exact ⟨[] :: (List.replicate idle [] ++ first :: _), later, rfl,
            .report (idle + 1) first hrest⟩
      · rw [List.filter_cons_of_pos (by simpa using hnil), List.cons_prefix_cons] at h
        obtain ⟨rfl, h⟩ := h
        obtain ⟨used, later, rfl, hbrings⟩ := ih h
        exact ⟨first :: used, later, rfl, .report 0 first hbrings⟩

/-- What is written is read again from its reports, and no more of the polls are used. Reports that
do not begin with all of them in their order are an error, as when one is lost, comes once more or
out of order, and no other bytes are read from any of them. -/
theorem hid_round_trip (stopped : String) {check : ℕ → Except String Unit}
    {write : Bytes → Except String ℕ} {command : Bytes} {packets : List Bytes}
    (hlength : command.length ≤ 65535) (hwrite : writeApdu check write command = .ok packets) :
    (∀ polls later, Brings polls (packets.map List.tail) →
      readApdu stopped (polls ++ later) = .ok (command, later)) ∧
    (∀ polls, Faulty (packets.map List.tail) (polls.filter (· ≠ [])) →
      ∃ error, readApdu stopped polls = .error error) ∧
    (∀ received, Disturbed (packets.map List.tail) received →
      Faulty (packets.map List.tail) received) ∧
    ∀ polls answer later, (∀ packet ∈ polls, packet = [] ∨ packet ∈ packets.map List.tail) →
      readApdu stopped polls = .ok (answer, later) → answer = command := by
  obtain rfl := writeApdu_ok hwrite
  have hlength' : command.length < 2 ^ 16 := by omega
  have hstart : readAfter command 0 = ⟨[], 0, 0⟩ := by simp [readAfter]
  refine ⟨fun polls later hbrings => ?_, fun polls ⟨hmem, hfaulty⟩ => ?_,
    fun received hdisturbed => hdisturbed.faulty hlength', fun polls answer later hpolls h => ?_⟩
  · rw [readApdu, ← hstart]
    exact readPolls_brings hlength' hbrings (reportCount_pos command) rfl later
  · refine readApdu_of_not_isPrefix hlength' (fun packet hpacket => ?_) hfaulty
    by_cases hnil : packet = []
    · exact .inl hnil
    · exact .inr (hmem packet (List.mem_filter.2 ⟨hpacket, by simpa using hnil⟩))
  · by_cases hbegins : reports command <+: polls.filter (· ≠ [])
    · obtain ⟨used, later', rfl, hbrings⟩ := exists_brings hbegins
      rw [readApdu, ← hstart,
        readPolls_brings hlength' hbrings (reportCount_pos command) rfl later'] at h
      exact (Prod.mk.inj (Except.ok.inj h)).1.symm
    · have hfails : ∃ error, readApdu stopped polls = .error error :=
        readApdu_of_not_isPrefix hlength' hpolls hbegins
      obtain ⟨error, herror⟩ := hfails
      exact nomatch herror.symm.trans h

/-- A command of three reports. -/
def sampleCommand : Bytes := (List.range 130).map UInt8.ofNat

/-- Its reports arrive after polls that timed out, and one of them is lost or comes once more. -/
theorem hid_round_trip_three :
    readApdu "stopped" ([[], report sampleCommand 0, [], [], report sampleCommand 1,
      report sampleCommand 2] ++ [[1]]) = .ok (sampleCommand, [[1]]) ∧
    (∃ error, readApdu "stopped" [report sampleCommand 0, [], report sampleCommand 2] =
      .error error) ∧
    ∃ error, readApdu "stopped" [report sampleCommand 0, report sampleCommand 1, [],
      report sampleCommand 0, report sampleCommand 2] = .error error := by
  obtain ⟨hbrings, hfaulty, hdisturbed, -⟩ := @hid_round_trip "stopped" (fun _ => .ok ())
    (fun packet => .ok packet.length) sampleCommand (hidPackets sampleCommand)
    (by simp [sampleCommand]) (by decide +kernel)
  have hreports : (hidPackets sampleCommand).map List.tail =
      [report sampleCommand 0, report sampleCommand 1, report sampleCommand 2] := by decide +kernel
  rw [hreports] at hbrings hfaulty hdisturbed
  have hne (index : ℕ) : report sampleCommand index ≠ [] := List.cons_ne_nil _ _
  refine ⟨hbrings _ _ (.report 1 _ (.report 2 _ (.report 0 _ .done))), hfaulty _ ?_, hfaulty _ ?_⟩
  · have hdropped := hdisturbed _ (.dropped 1 (by simp))
    simpa [hne] using hdropped
  · have hdoubled := hdisturbed _ (.duplicated 0 2 (report sampleCommand 0) rfl
      (by simp) (.inr (by decide)))
    simpa [hne] using hdoubled

end VizorWallet.Ledger
