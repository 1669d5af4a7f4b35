import Desmos.Core.Net.Dns

/-! # Names in DNS packets

A name is a list of labels and ends with the root label or with a compression pointer. `skip_name`
stops where such a name stops. `build_query` writes one only if the name it is given has no empty
label.
-/
namespace Desmos.Core.Dns
open Library Library.Text

structure Label where
  text : Bytes
  nonempty : text ≠ []
  short : text.length ≤ 63

def Label.wire (label : Label) : Bytes := UInt8.ofNat label.text.length :: label.text

inductive NameEnd where
  | root
  | pointer (high low : UInt8) (hhigh : high &&& 0xC0 = 0xC0)

def NameEnd.wire : NameEnd → Bytes
  | root => [0]
  | pointer high low _ => [high, low]

structure Name where
  labels : List Label
  ending : NameEnd

def Name.wire (name : Name) : Bytes := name.labels.flatMap Label.wire ++ name.ending.wire

section Skip
variable {packet : Bytes} {pos : ℕ}

theorem Label.length_byte (label : Label) :
    (UInt8.ofNat label.text.length).toNat = label.text.length :=
  UInt8.toNat_ofNat_of_lt' (label.short.trans_lt (by decide))

theorem Label.length_byte_plain (label : Label) :
    UInt8.ofNat label.text.length ≠ 0 ∧ UInt8.ofNat label.text.length &&& 0xC0 ≠ 0xC0 := by
  have hplain : ∀ n < 64, n ≠ 0 → UInt8.ofNat n ≠ 0 ∧ UInt8.ofNat n &&& 0xC0 ≠ 0xC0 := by decide
  have hlen := label.short
  exact hplain _ (by omega) (mt List.length_eq_zero_iff.mp label.nonempty)

theorem Label.wire_length (label : Label) : label.wire.length = 1 + label.text.length := by
  rw [wire, List.length_cons, Nat.add_comm]

theorem skipName_label (label : Label) (h : HasAt packet pos label.wire) :
    skipName packet pos = skipName packet (pos + label.wire.length) := by
  have hinside := h.le_length
  obtain ⟨hroot, hpointer⟩ := label.length_byte_plain
  rw [label.wire_length] at hinside ⊢
  conv_lhs => unfold skipName
  rw [if_neg (by omega), h.getElem?, Option.bind_eq_bind, Option.bind_some, if_neg hroot,
    if_neg hpointer, label.length_byte]

theorem skipName_ending (ending : NameEnd) (h : HasAt packet pos ending.wire) :
    skipName packet pos = some (.ok (pos + ending.wire.length)) := by
  have hinside := h.le_length
  cases ending with
  | root =>
    simp only [NameEnd.wire, List.length_singleton] at h hinside ⊢
    rw [skipName, if_neg (by omega), h.getElem?]
    rfl
  | pointer high low hhigh =>
    have hroot : high ≠ 0 := by
      rintro rfl
      exact absurd hhigh (by decide)
    simp only [NameEnd.wire, List.length_cons, List.length_nil] at h hinside ⊢
    rw [skipName, if_neg (by omega), h.getElem?, Option.bind_eq_bind, Option.bind_some,
      if_neg hroot, if_pos hhigh, if_neg (by omega)]

/-- Skipping a name stops right behind it. -/
theorem skipName_wire (name : Name) (h : HasAt packet pos name.wire) :
    skipName packet pos = some (.ok (pos + name.wire.length)) := by
  obtain ⟨labels, ending⟩ := name
  induction labels generalizing pos with
  | nil => exact skipName_ending ending h
  | cons label labels ih =>
    simp only [Name.wire, List.flatMap_cons, List.append_assoc] at h ih ⊢
    rw [skipName_label label h.left, ih h.right, Nat.add_assoc, ← List.length_append]

end Skip

/-- The labels that `skip_name` steps over from `pos` on. -/
def labelsFrom (packet : Bytes) (pos : ℕ) : List Bytes :=
  if h : pos < packet.length then
    let len := packet[pos]
    if len = 0 ∨ len &&& 0xC0 = 0xC0 then []
    else slice packet (pos + 1) len.toNat :: labelsFrom packet (pos + (1 + len.toNat))
  else []
termination_by packet.length - pos

def labelsOf (name : Text) : List Bytes := (name.splitOn '.').map asBytes

/-- The question reads back as the name: it ends right before the type and the class, and its labels
are the non-empty ones of the name. -/
def ReadsBack (name : Text) (packet : Bytes) : Prop :=
  skipName packet headerLen = some (.ok (packet.length - 4)) ∧
    labelsFrom packet headerLen = (labelsOf name).filter (· ≠ [])

section Question
variable {packet : Bytes} {pos : ℕ}

theorem labelsFrom_label (label : Label) (h : HasAt packet pos label.wire) :
    labelsFrom packet pos = label.text :: labelsFrom packet (pos + label.wire.length) := by
  have hinside := h.le_length
  obtain ⟨hroot, hpointer⟩ := label.length_byte_plain
  rw [label.wire_length] at hinside ⊢
  have hpos : pos < packet.length := by omega
  have hbyte : packet[pos] = UInt8.ofNat label.text.length := by
    have hread := h.getElem?
    rwa [List.getElem?_eq_getElem hpos, Option.some.injEq] at hread
  have htext := h.tail.slice_eq
  conv_lhs => unfold labelsFrom
  rw [dif_pos hpos]
  simp only [hbyte]
  rw [if_neg (not_or.mpr ⟨hroot, hpointer⟩), label.length_byte, htext]

theorem labelsFrom_root (h : HasAt packet pos [0]) : labelsFrom packet pos = [] := by
  have hread := h.getElem?
  obtain ⟨hpos, hbyte⟩ := List.getElem?_eq_some_iff.mp hread
  rw [labelsFrom, dif_pos hpos]
  simp [hbyte]

theorem labelsFrom_wire (labels : List Label) (h : HasAt packet pos (Name.wire ⟨labels, .root⟩)) :
    labelsFrom packet pos = labels.map Label.text := by
  induction labels generalizing pos with
  | nil => exact labelsFrom_root h
  | cons label labels ih =>
    simp only [Name.wire, List.flatMap_cons, List.append_assoc] at h ih
    rw [labelsFrom_label label h.left, ih h.right, List.map_cons]

/-- What the loop appends for a list of labels, empty ones included. -/
def pushed (labels : List Bytes) : Bytes :=
  labels.flatMap fun label => UInt8.ofNat label.length :: label

theorem foldlM_pushLabel {labels : List Text} {buf out : Bytes}
    (h : labels.foldlM pushLabel buf = .ok out) :
    (∀ label ∈ labels.map asBytes, label.length ≤ 63) ∧
      out = buf ++ pushed (labels.map asBytes) := by
  induction labels generalizing buf with
  | nil => exact ⟨nofun, by simpa [pushed] using (Except.ok.inj h).symm⟩
  | cons label labels ih =>
    rw [List.foldlM_cons, pushLabel] at h
    by_cases hlong : 63 < utf8Len label
    · rw [if_pos hlong] at h
      cases h
    · rw [if_neg hlong] at h
      obtain ⟨hshort, hout⟩ := ih h
      refine ⟨List.forall_mem_cons.mpr ⟨not_lt.mp hlong, hshort⟩, ?_⟩
      rw [hout]
      simp [pushed, utf8Len]

theorem buildQuery_ok {name : Text} {txId : UInt16} (h : buildQuery name txId = .ok packet) :
    (∀ label ∈ labelsOf name, label.length ≤ 63) ∧
      packet = queryHeader txId ++ (pushed (labelsOf name) ++
        ([0x00] ++ (toBe 2 typeA.toNat ++ toBe 2 classIn.toNat))) := by
  unfold buildQuery at h
  split at h
  · cases h
  · cases hloop : (name.splitOn '.').foldlM pushLabel (queryHeader txId) with
    | error e =>
      rw [hloop] at h
      cases h
    | ok buf =>
      rw [hloop] at h
      obtain ⟨hshort, hbuf⟩ := foldlM_pushLabel hloop
      refine ⟨hshort, ?_⟩
      rw [← Except.ok.inj h, hbuf, List.append_assoc]
      rfl

theorem exists_labels {texts : List Bytes} (h : ∀ text ∈ texts, text ≠ [] ∧ text.length ≤ 63) :
    ∃ labels : List Label, labels.map Label.text = texts := by
  induction texts with
  | nil => exact ⟨[], rfl⟩
  | cons text texts ih =>
    obtain ⟨⟨hnonempty, hshort⟩, hrest⟩ := List.forall_mem_cons.mp h
    obtain ⟨labels, rfl⟩ := ih hrest
    exact ⟨⟨text, hnonempty, hshort⟩ :: labels, rfl⟩

theorem question_read {front : List Bytes} (hfront : ∀ text ∈ front, text ≠ [] ∧ text.length ≤ 63)
    (txId : UInt16) {tail : Bytes}
    (hpacket : packet = queryHeader txId ++ (pushed front ++ ([0x00] ++ tail))) :
    skipName packet headerLen = some (.ok (headerLen + ((pushed front).length + 1))) ∧
      labelsFrom packet headerLen = front := by
  obtain ⟨labels, rfl⟩ := exists_labels hfront
  have hwire : Name.wire ⟨labels, .root⟩ = pushed (labels.map Label.text) ++ [0x00] := by
    rw [Name.wire, pushed, List.flatMap_map]
    rfl
  have hat : HasAt packet headerLen (Name.wire ⟨labels, .root⟩) := by
    refine ⟨queryHeader txId, tail, ?_, by rw [queryHeader, List.length_append, toBe_length]; rfl⟩
    rw [hpacket, hwire, List.append_assoc]
  refine ⟨?_, labelsFrom_wire labels hat⟩
  rw [skipName_wire _ hat, hwire, List.length_append, List.length_singleton]

end Question

/-- A query asks for the name it was given exactly if no label of the name is empty. -/
theorem question_reads_back_iff {name : Text} {txId : UInt16} {packet : Bytes}
    (h : buildQuery name txId = .ok packet) : ReadsBack name packet ↔ [] ∉ labelsOf name := by
  obtain ⟨hshort, hpacket⟩ := buildQuery_ok h
  have hheader : (queryHeader txId).length = headerLen := by
    rfl
  have hlength : packet.length - 4 = headerLen + ((pushed (labelsOf name)).length + 1) := by
    simp only [hpacket, List.length_append, hheader, toBe_length, List.length_singleton]
    omega
  constructor
  · rintro ⟨hskip, -⟩ hmem
    obtain ⟨front, back, hsplit, hfront⟩ := List.eq_append_cons_of_mem hmem
    -- the empty label ends the question, and at least the root label stands behind it
    have hpushed : pushed (labelsOf name) = pushed front ++ ([0x00] ++ pushed back) := by
      rw [hsplit]
      simp [pushed]
    have hfronts : ∀ text ∈ front, text ≠ [] ∧ text.length ≤ 63 := by
      intro text htext
      refine ⟨fun hempty => hfront (hempty ▸ htext), hshort text ?_⟩
      rw [hsplit]
      exact List.mem_append_left _ htext
    rw [hpushed, List.append_assoc, List.append_assoc] at hpacket
    have hstop := (question_read hfronts txId hpacket).1
    rw [hskip, hlength, hpushed, List.length_append, List.length_append] at hstop
    simp only [Option.some.injEq, Except.ok.injEq, List.length_singleton] at hstop
    omega
  · intro hnonempty
    have hlabels : ∀ text ∈ labelsOf name, text ≠ [] ∧ text.length ≤ 63 := fun text htext =>
      ⟨fun hempty => hnonempty (hempty ▸ htext), hshort text htext⟩
    obtain ⟨hskip, hread⟩ := question_read hlabels txId hpacket
    refine ⟨by rw [hskip, hlength], ?_⟩
    rw [hread, List.filter_eq_self.mpr]
    intro text htext
    simpa using (hlabels text htext).1

theorem question_reads_back_sample :
    ∃ packet, buildQuery "example.com".toList 0x1234 = .ok packet ∧
      ReadsBack "example.com".toList packet :=
  ⟨_, rfl, (question_reads_back_iff rfl).mpr (by decide)⟩

/-- Of `a..b` only the first label is asked for, and the rest of the packet is not a question. -/
theorem empty_label_ends_question :
    ∃ packet, buildQuery "a..b".toList 1 = .ok packet ∧ packet.length = 22 ∧
      skipName packet headerLen = some (.ok 15) ∧ labelsFrom packet headerLen = [[97]] ∧
      ¬ ReadsBack "a..b".toList packet := by
  refine ⟨_, rfl, rfl, by decide +kernel, by decide +kernel, ?_⟩
  rintro ⟨hskip, -⟩
  exact absurd hskip (by decide +kernel)

end Desmos.Core.Dns
