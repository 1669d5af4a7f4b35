import Desmos.Core.Net.Dns.Name

/-! # What a DNS response says

A response is a header, a list of questions, a list of answer records of any type, and whatever
follows them. The parser follows the message record by record and returns its IPv4 addresses.
-/
namespace Desmos.Core.Dns
open Library

structure Question where
  name : Name
  qtype : UInt16
  qclass : UInt16

def Question.wire (q : Question) : Bytes :=
  q.name.wire ++ (toBe 2 q.qtype.toNat ++ toBe 2 q.qclass.toNat)

structure Record where
  name : Name
  rtype : UInt16
  rclass : UInt16
  ttl : UInt32
  data : Bytes
  fits : data.length < 2 ^ 16

namespace Record

def wire (r : Record) : Bytes :=
  r.name.wire ++ (toBe 2 r.rtype.toNat ++ (toBe 2 r.rclass.toNat ++ (toBe 4 r.ttl.toNat ++
    (toBe 2 r.data.length ++ r.data))))

/-- An A record with four bytes of data. -/
def isAddress (r : Record) : Bool := r.rtype = typeA ∧ r.data.length = 4

theorem isAddress_iff {r : Record} :
    r.isAddress = true ↔ r.rtype = typeA ∧ r.data.length = 4 := decide_eq_true_iff

def address (r : Record) : ByteArr 4 := ByteArr.ofBytes 4 r.data

end Record

/-- A response with the response code 0. The counts of the other two sections and the bytes after
the answers may be anything. -/
structure Response where
  txId : UInt16
  flags : UInt8
  flagsLow : UInt8
  noError : flagsLow &&& 0x0F = 0
  questions : List Question
  questionsFit : questions.length < 2 ^ 16
  answers : List Record
  answersFit : answers.length < 2 ^ 16
  nscount : UInt16
  arcount : UInt16
  rest : Bytes

namespace Response

def sections (m : Response) : Bytes :=
  m.questions.flatMap Question.wire ++ (m.answers.flatMap Record.wire ++ m.rest)

def wire (m : Response) : Bytes :=
  toBe 2 m.txId.toNat ++ ([m.flags, m.flagsLow] ++ (toBe 2 m.questions.length ++
    (toBe 2 m.answers.length ++ (toBe 2 m.nscount.toNat ++ (toBe 2 m.arcount.toNat ++
      m.sections)))))

/-- The addresses in order with the time to live of the first. -/
def answered (m : Response) : Except DnsError DnsAnswer :=
  match m.answers.filter Record.isAddress with
  | [] => .error .noAnswer
  | first :: others => .ok ⟨m.txId, (first :: others).map Record.address, first.ttl⟩

end Response

def Found.collect (found : Found) (r : Record) : Found :=
  if r.isAddress then found.push r.address r.ttl else found

section Sections
variable {packet : Bytes} {pos : ℕ}

theorem skipQuestions_wire (questions : List Question)
    (h : HasAt packet pos (questions.flatMap Question.wire)) :
    skipQuestions packet questions.length pos =
      some (.ok (pos + (questions.flatMap Question.wire).length)) := by
  induction questions generalizing pos with
  | nil => rfl
  | cons q questions ih =>
    rw [List.flatMap_cons] at h ⊢
    have hfixed := h.left.right.le_length
    rw [List.length_append, toBe_length, toBe_length] at hfixed
    have hlen : q.wire.length = q.name.wire.length + 4 := by
      rw [Question.wire, List.length_append, List.length_append, toBe_length, toBe_length]
    have hnext := h.right
    rw [List.length_cons, skipQuestions, skipName_wire q.name h.left.left, Option.bind_eq_bind,
      Option.bind_some]
    simp only
    rw [if_neg (by omega), List.length_append, hlen, ← Nat.add_assoc, ← Nat.add_assoc, ih]
    rwa [hlen, ← Nat.add_assoc] at hnext

/-- The fixed fields of a record behind its name. -/
structure RecordFields (packet : Bytes) (pos : ℕ) (r : Record) : Prop where
  rtype : u16At packet pos = some r.rtype
  rclass : u16At packet (pos + 2) = some r.rclass
  ttl : u32At packet (pos + 4) = some r.ttl
  rdlength : u16At packet (pos + 8) = some (UInt16.ofNat r.data.length)
  data : HasAt packet (pos + 10) r.data

theorem Record.data_length (r : Record) : (UInt16.ofNat r.data.length).toNat = r.data.length :=
  UInt16.toNat_ofNat_of_lt' r.fits

theorem Record.wire_length (r : Record) :
    r.wire.length = r.name.wire.length + (10 + r.data.length) := by
  simp only [Record.wire, List.length_append, toBe_length]
  omega

theorem recordFields (r : Record) (h : HasAt packet pos r.wire) :
    RecordFields packet (pos + r.name.wire.length) r := by
  have htype := h.right
  have hclass := htype.right
  have httl := hclass.right
  have hlength := httl.right
  have hdata := hlength.right
  exact ⟨htype.left.u16At, hclass.left.u16At, httl.left.u32At, hlength.left.u16At_ofNat r.fits,
    hdata⟩

theorem readAnswers_record (r : Record) (h : HasAt packet pos r.wire) (count : ℕ) (found : Found) :
    readAnswers packet (count + 1) pos found =
      readAnswers packet count (pos + r.wire.length) (found.collect r) := by
  have hfields := recordFields r h
  have hinside := hfields.data.le_length
  have hnext : pos + r.wire.length = pos + r.name.wire.length + 10 + r.data.length := by
    rw [r.wire_length]
    omega
  rw [readAnswers, skipName_wire r.name h.left, Option.bind_eq_bind, Option.bind_some]
  simp only
  rw [if_neg (by omega), hfields.rtype, hfields.rclass, hfields.ttl, hfields.rdlength]
  simp only [Option.bind_eq_bind, Option.bind_some]
  rw [r.data_length, if_neg (by omega), hnext, Found.collect]
  have hfour : UInt16.ofNat r.data.length = 4 ↔ r.data.length = 4 := by
    rw [← UInt16.toNat_inj, r.data_length]
    rfl
  by_cases haddress : r.rtype = typeA ∧ r.data.length = 4
  · rw [if_pos ⟨haddress.1, hfour.mpr haddress.2⟩, if_pos (Record.isAddress_iff.mpr haddress),
      hfields.data.sliceAt _ (by rw [haddress.2]), Option.bind_some]
    rfl
  · rw [if_neg (by rwa [hfour]), if_neg (mt Record.isAddress_iff.mp haddress)]

theorem readAnswers_wire (answers : List Record) (found : Found)
    (h : HasAt packet pos (answers.flatMap Record.wire)) :
    readAnswers packet answers.length pos found =
      some (.ok (answers.foldl Found.collect found)) := by
  induction answers generalizing pos found with
  | nil => rfl
  | cons r answers ih =>
    rw [List.length_cons, readAnswers_record r h.left, List.foldl_cons, ih _ h.right]

theorem foldl_collect (answers : List Record) :
    answers.foldl Found.collect ⟨[], 0⟩ =
      ⟨(answers.filter Record.isAddress).map Record.address,
        ((answers.filter Record.isAddress).head?.map Record.ttl).getD 0⟩ := by
  induction answers using List.reverseRecOn with
  | nil => rfl
  | append_singleton answers r ih =>
    rw [List.foldl_append, ih, List.foldl_cons, List.foldl_nil, List.filter_append, Found.collect]
    by_cases haddress : r.isAddress = true
    · cases hbefore : answers.filter Record.isAddress with
      | nil => simp [Found.push, haddress]
      | cons first others => simp [Found.push, haddress]
    · simp [haddress]

end Sections

theorem Response.answer_collected (m : Response) :
    (m.answers.foldl Found.collect ⟨[], 0⟩).answer m.txId = m.answered := by
  rw [foldl_collect, Response.answered]
  cases m.answers.filter Record.isAddress with
  | nil => rfl
  | cons first others => rfl

theorem parseResponse_wire (m : Response) :
    parseResponse m.wire m.txId = some m.answered := by
  generalize hpacket : m.wire = packet
  have hall : HasAt packet 0 m.wire := hpacket ▸ ⟨[], [], by simp, rfl⟩
  have hflags : HasAt packet 2 _ := hall.right
  have hqd : HasAt packet 4 _ := hflags.right
  have han : HasAt packet 6 _ := hqd.right
  have hns : HasAt packet 8 _ := han.right
  have har : HasAt packet 10 _ := hns.right
  have hsections : HasAt packet headerLen m.sections := har.right
  have hheader := hsections.le_length
  have hskip := skipQuestions_wire m.questions hsections.left
  have hread := readAnswers_wire m.answers ⟨[], 0⟩ hsections.right.left
  have hid : u16At packet 0 = some m.txId := hall.left.u16At
  have hcode : packet[3]? = some m.flagsLow := hflags.left.tail.getElem?
  rw [parseResponse, if_neg (by omega), hid, hcode, hqd.left.u16At_ofNat m.questionsFit,
    han.left.u16At_ofNat m.answersFit]
  simp only [Option.bind_eq_bind, Option.bind_some, ne_eq, not_true_eq_false, if_false, m.noError,
    UInt16.toNat_ofNat_of_lt' m.questionsFit, UInt16.toNat_ofNat_of_lt' m.answersFit, hskip, hread]
  rw [m.answer_collected]

/-- Parsing never reads outside of the packet, and of every response without an error it returns the
addresses that the server sent, in order. -/
theorem dns_response_decoded :
    (∀ packet expectedId, ∃ result, parseResponse packet expectedId = some result) ∧
    ∀ m : Response, parseResponse m.wire m.txId = some m.answered := by
  constructor
  · intro packet expectedId
    obtain ⟨result, hresult, -⟩ := parseResponse_returns packet expectedId
    exact ⟨result, hresult⟩
  · exact parseResponse_wire

end Desmos.Core.Dns
