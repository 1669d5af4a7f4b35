import Desmos.Http.Server.Wire
import Mathlib.Data.Nat.Size

/-! # The requests that a handler sees

A request is seen as it was sent if the reads that bring it bring nothing else, and the read in
which its head ends leaves whole characters behind it.
-/
namespace Desmos.Http
open Library Desmos.Core

/-- The size of the buffer when so much is in it. -/
def bufferSize (filled : ℕ) : ℕ := 4096 * 2 ^ (filled / 4096).size

section Buffer
variable {filled filled' : ℕ}

theorem bufferSize_of_lt (hle : filled ≤ filled') (hlt : filled' < bufferSize filled) :
    bufferSize filled' = bufferSize filled := by
  have hdiv : filled / 4096 ≤ filled' / 4096 := Nat.div_le_div_right hle
  have hup : (filled' / 4096).size ≤ (filled / 4096).size := by
    rw [Nat.size_le]
    unfold bufferSize at hlt
    omega
  rw [bufferSize, bufferSize, le_antisymm hup (Nat.size_le_size hdiv)]

theorem bufferSize_of_full (h : filled' = bufferSize filled) : bufferSize filled' = filled' * 2 := by
  have hdiv : filled' / 4096 = 2 ^ (filled / 4096).size := by
    rw [h, bufferSize, Nat.mul_div_cancel_left _ (by decide)]
  rw [bufferSize, hdiv, Nat.size_pow, h, bufferSize, pow_succ, mul_assoc]

theorem bufferSize_next (hle : filled ≤ filled') (hfits : filled' ≤ bufferSize filled) :
    (if filled' = bufferSize filled then bufferSize filled * 2 else bufferSize filled) =
      bufferSize filled' := by
  split
  · next hfull => rw [bufferSize_of_full hfull, hfull]
  · next hfull => rw [bufferSize_of_lt hle (by omega)]

end Buffer

section Reads
variable {failure : Option IoError} {fuel : ℕ}

theorem readHeader_step {segment filled : Bytes} {rest : List Bytes} (hne : segment ≠ [])
    (hmax : filled.length < maxHeaderBuf)
    (hroom : filled.length + segment.length ≤ bufferSize filled.length) :
    readHeader (fuel + 1) (bufferSize filled.length) filled ⟨segment :: rest, failure⟩ =
      if hasHeadEnd (filled ++ segment) then .ok (filled ++ segment, ⟨rest, failure⟩)
      else readHeader fuel (bufferSize (filled ++ segment).length) (filled ++ segment)
        ⟨rest, failure⟩ := by
  obtain ⟨b, segment, rfl⟩ := List.exists_cons_of_ne_nil hne
  have hread := ByteStream.read_segment (Nat.le_sub_of_add_le' hroom) rest failure
  rw [← List.length_append] at hroom
  have hgrown : filled.length ≤ (filled ++ b :: segment).length := by simp
  simp only [readHeader, if_neg (Nat.not_le.mpr hmax), hread, bufferSize_next hgrown hroom]

/-- The head is read up to the end of the segment in which it ends, which is where the first
`n` bytes of the stream are. -/
theorem readHeader_reads {n : ℕ} {early : List Bytes} {here filled : Bytes} {late : List Bytes}
    (hfuel : maxHeaderBuf < fuel + filled.length) (hn : n ≤ maxHeaderBuf)
    (hsearch : ∀ front, front <+: filled ++ early.flatten ++ here →
      (hasHeadEnd front = true ↔ n ≤ front.length))
    (hbefore : (filled ++ early.flatten).length < n)
    (hbehind : n ≤ (filled ++ early.flatten ++ here).length)
    (hnonempty : [] ∉ early ++ [here])
    (hroom : ∀ e s l, early ++ [here] = e ++ s :: l →
      filled.length + e.flatten.length + s.length ≤ bufferSize (filled.length + e.flatten.length)) :
    readHeader fuel (bufferSize filled.length) filled ⟨early ++ here :: late, failure⟩ =
      .ok (filled ++ early.flatten ++ here, ⟨late, failure⟩) := by
  have hmax : filled.length < maxHeaderBuf := by
    rw [List.length_append] at hbefore
    omega
  obtain ⟨fuel, rfl⟩ := Nat.exists_eq_succ_of_ne_zero (show fuel ≠ 0 by omega)
  induction early generalizing filled fuel with
  | nil =>
    rw [List.flatten_nil, List.append_nil] at *
    have hend := (hsearch _ (List.prefix_refl _)).mpr hbehind
    refine (readHeader_step ?_ hmax (hroom [] here [] rfl)).trans (if_pos hend)
    exact fun hnil => hnonempty (List.mem_singleton.mpr hnil.symm)
  | cons segment early ih =>
    have hassoc : filled ++ (segment :: early).flatten = filled ++ segment ++ early.flatten := by
      rw [List.flatten_cons, List.append_assoc]
    rw [hassoc] at hsearch hbefore hbehind ⊢
    have hne : segment ≠ [] := fun hnil => hnonempty (by simp [hnil])
    have hlen : (filled ++ segment).length = filled.length + segment.length := List.length_append
    have hpos := List.length_pos_of_ne_nil hne
    have hshort : (filled ++ segment).length < n := by
      rw [List.length_append] at hbefore
      omega
    have hend : ¬ hasHeadEnd (filled ++ segment) = true := by
      rw [hsearch _ ⟨early.flatten ++ here, by simp⟩]
      omega
    refine (readHeader_step hne hmax (hroom [] segment (early ++ [here]) rfl)).trans ?_
    obtain ⟨fuel, rfl⟩ := Nat.exists_eq_succ_of_ne_zero (show fuel ≠ 0 by omega)
    rw [if_neg hend]
    refine ih hsearch hbefore hbehind ?_ ?_ (by omega) _ (by omega)
    · exact fun hmem => hnonempty (List.mem_cons_of_mem _ hmem)
    · intro e s l hcut
      have hnext := hroom (segment :: e) s l (by rw [List.cons_append, hcut]; rfl)
      rw [List.flatten_cons, List.length_append] at hnext
      rw [hlen, Nat.add_assoc filled.length]
      exact hnext

theorem readHeader_start {n : ℕ} {early : List Bytes} {here : Bytes} {late : List Bytes}
    (hn : n ≤ maxHeaderBuf)
    (hsearch : ∀ front, front <+: early.flatten ++ here →
      (hasHeadEnd front = true ↔ n ≤ front.length))
    (hbefore : early.flatten.length < n) (hbehind : n ≤ (early.flatten ++ here).length)
    (hnonempty : [] ∉ early ++ [here])
    (hroom : ∀ e s l, early ++ [here] = e ++ s :: l →
      e.flatten.length + s.length ≤ bufferSize e.flatten.length) :
    readHeader (maxHeaderBuf + 1) 4096 [] ⟨early ++ here :: late, failure⟩ =
      .ok (early.flatten ++ here, ⟨late, failure⟩) := by
  have hsize : bufferSize ([] : Bytes).length = 4096 := by decide
  rw [← hsize]
  refine readHeader_reads (Nat.lt_succ_self _) hn hsearch hbefore hbehind hnonempty ?_
  intro e s l hcut
  rw [List.length_nil, Nat.zero_add]
  exact hroom e s l hcut

theorem readUpTo_reads {total : ℕ} {late others : List Bytes} {filled : Bytes}
    (hfuel : total ≤ fuel + filled.length) (hnonempty : [] ∉ late)
    (htotal : filled.length + late.flatten.length = total) :
    readUpTo total fuel filled ⟨late ++ others, failure⟩ =
      .ok (filled ++ late.flatten, ⟨others, failure⟩) := by
  induction late generalizing filled fuel with
  | nil =>
    rw [List.flatten_nil, List.length_nil, Nat.add_zero] at htotal
    rw [List.flatten_nil, List.append_nil, List.nil_append]
    cases fuel with
    | zero => rfl
    | succ fuel => rw [readUpTo, if_pos htotal.ge]
  | cons segment late ih =>
    obtain ⟨b, segment', rfl⟩ := List.exists_cons_of_ne_nil
      (fun hnil => hnonempty (by simp [hnil]) : segment ≠ [])
    rw [List.flatten_cons, List.length_append] at htotal
    have hpos : (b :: segment').length = segment'.length + 1 := rfl
    cases fuel with
    | zero => omega
    | succ fuel =>
      have hspace : (b :: segment').length ≤ total - filled.length := by omega
      have hread := ByteStream.read_segment hspace (late ++ others) failure
      simp only [readUpTo, if_neg (show ¬ total ≤ filled.length by omega), List.cons_append, hread]
      rw [ih (by rw [List.length_append]; omega) (fun hmem => hnonempty (List.mem_cons_of_mem _ hmem))
        (by rw [List.length_append]; omega)]
      simp

end Reads

namespace WireRequest

/-- The mark of a length is nowhere in front of the header that has the length, and nowhere at
all if no header has. -/
def Unmisleading (r : WireRequest) : Prop :=
  match r.body with
  | .sized _ => ∀ before h after, r.headers = before ++ h :: after →
      Text.eqIgnoreAsciiCase h.name "content-length".toList = true →
      (∀ h' ∈ before, Text.eqIgnoreAsciiCase h'.name "content-length".toList = false) →
      Silent r.requestLine ∧ ∀ h' ∈ before, Silent h'.line
  | _ => (∀ line ∈ r.lines, Silent line) ∧ ∀ t, Text.asBytes t = r.body.bytes → Silent t

/-- The bytes of a request as a series of reads. A read brings something, and no more than the
buffer has room for. -/
structure CutInto (r : WireRequest) (segments : List Bytes) : Prop where
  flatten : segments.flatten = r.bytes
  nonempty : [] ∉ segments
  room : ∀ early here late, segments = early ++ here :: late →
    early.flatten.length < Text.utf8Len r.head →
      early.flatten.length + here.length ≤ bufferSize early.flatten.length

/-- What the server needs of a request and of the read in which its head ends. -/
structure Readable (r : WireRequest) (segments : List Bytes) : Prop where
  plain : r.body.Plain
  limits : r.WithinLimits
  unmisleading : r.Unmisleading
  headRead : ∀ early here late, segments = early ++ here :: late →
    early.flatten.length < Text.utf8Len r.head →
    Text.utf8Len r.head ≤ (early.flatten ++ here).length →
      (r.body.IsChunked → late = []) ∧ ∀ t, Text.asBytes t = r.body.bytes →
        Text.IsCharBoundary (early.flatten ++ here).length (r.head ++ t)

variable {r : WireRequest} {front : Bytes} {t : Text} {segments : List Bytes}

theorem utf8Len_head_pos (r : WireRequest) : 0 < Text.utf8Len r.head := by
  rw [head, Text.utf8Len_append]
  exact Nat.lt_of_lt_of_le (show 0 < Text.utf8Len crlf by decide) (Nat.le_add_left _ _)

theorem hasHeadEnd_iff_head {rest : Bytes} (h : front <+: Text.asBytes r.head ++ rest) :
    hasHeadEnd front = true ↔ Text.utf8Len r.head ≤ front.length := by
  rw [r.head_eq] at h
  rw [r.head_eq]
  exact hasHeadEnd_iff r.lines_ne_nil r.lines_isLine h

theorem exists_text_of_boundary {late : Bytes} (ht : Text.asBytes t = r.body.bytes)
    (hfront : front ++ late = r.bytes) (hlong : Text.utf8Len r.head ≤ front.length)
    (hboundary : Text.IsCharBoundary front.length (r.head ++ t)) :
    ∃ seen unseen, t = seen ++ unseen ∧ front = Text.asBytes (r.head ++ seen) ∧
      late = Text.asBytes unseen := by
  obtain ⟨text, unseen, htext, hlen⟩ := hboundary
  have hall : front ++ late = Text.asBytes text ++ Text.asBytes unseen := by
    rw [hfront, bytes, ← ht, ← Text.asBytes_append, htext, Text.asBytes_append]
  obtain ⟨rfl, rfl⟩ := List.append_inj hall hlen.symm
  rcases List.append_eq_append_iff.mp htext with ⟨seen, rfl, rfl⟩ | ⟨missing, hhead, rfl⟩
  · exact ⟨seen, unseen, rfl, rfl, rfl⟩
  · -- the head is no longer than the text, so that nothing of it is missing
    rw [hhead, Text.utf8Len_append, hlen] at hlong
    obtain rfl : missing = [] := by
      have hzero : (Text.asBytes missing).length = 0 := by
        rw [← Text.utf8Len]
        omega
      exact Text.asBytes_injective (List.length_eq_zero_iff.mp hzero)
    rw [List.append_nil] at hhead
    exact ⟨[], t, rfl, by rw [List.append_nil, hhead], rfl⟩

theorem get_eq_some {headers : List HeaderLine} {name : String} {value : Text}
    (h : Headers.get ⟨headers.map HeaderLine.header⟩ name = some value) :
    ∃ before e after, headers = before ++ e :: after ∧
      Text.eqIgnoreAsciiCase e.name name.toList = true ∧
      (∀ e' ∈ before, Text.eqIgnoreAsciiCase e'.name name.toList = false) ∧ e.value = value := by
  rw [Headers.get, List.find?_map, Option.map_map, Option.map_eq_some_iff] at h
  obtain ⟨e, hfind, hvalue⟩ := h
  obtain ⟨hname, before, after, rfl, hbefore⟩ := List.find?_eq_some_iff_append.mp hfind
  have hfirst : ∀ e' ∈ before, Text.eqIgnoreAsciiCase e'.name name.toList = false := by
    intro e' he'
    have hother := hbefore e' he'
    rw [Bool.not_eq_true'] at hother
    exact hother
  exact ⟨before, e, after, rfl, hname, hfirst, hvalue⟩

theorem peekContentLength_sized (h : r.Unmisleading) {data : Bytes} (hbody : r.body = .sized data)
    (seen : Text) : peekContentLength (r.head ++ seen) = some data.length := by
  have hannounced := r.announced
  rw [hbody] at hannounced
  rw [Unmisleading, hbody] at h
  obtain ⟨⟨value, hvalue, -, hlen⟩, -⟩ := hannounced
  obtain ⟨before, e, after, hheaders, hname, hfirst, rfl⟩ := get_eq_some hvalue
  obtain ⟨hline, hbefore⟩ := h before e after hheaders hname hfirst
  have hlines : ∀ line ∈ r.requestLine :: before.map HeaderLine.line, Silent line := by
    refine List.forall_mem_cons.mpr ⟨hline, ?_⟩
    intro line hmem
    obtain ⟨e', he', rfl⟩ := List.mem_map.mp hmem
    exact hbefore e' he'
  have hcut : r.head ++ seen = (r.requestLine :: before.map HeaderLine.line).flatMap (· ++ crlf) ++
      (e.line ++ (crlf ++ ((after.map HeaderLine.line).flatMap (· ++ crlf) ++ crlf ++ seen))) := by
    rw [head, lines, hheaders]
    simp
  rw [hcut, peekContentLength_header hlines hname, hlen]

theorem awaitBody_reads {late : List Bytes} {seen unseen : Text} (h : r.Readable segments)
    (ht : Text.asBytes (seen ++ unseen) = r.body.bytes) (hfront : front = Text.asBytes (r.head ++ seen))
    (hlate : late.flatten = Text.asBytes unseen) (hnonempty : [] ∉ late)
    (hchunked : r.body.IsChunked → late = []) (others : List Bytes) (failure : Option IoError) :
    awaitBody (r.head ++ seen) front ⟨late ++ others, failure⟩ =
      some (.ok (r.bytes, ⟨others, failure⟩)) := by
  have hbytes : front ++ late.flatten = r.bytes := by
    rw [hfront, hlate, bytes, ← ht]
    simp
  have hunmisleading := h.unmisleading
  -- with nothing to wait for, the mark is nowhere
  have hwhole : late = [] → (∀ line ∈ r.lines, Silent line) → Silent seen →
      awaitBody (r.head ++ seen) front ⟨late ++ others, failure⟩ =
        some (.ok (r.bytes, ⟨others, failure⟩)) := by
    rintro rfl hlines hseen
    have hpeek := peekContentLength_silent hlines hseen
    rw [List.flatten_nil, List.append_nil] at hbytes
    rw [awaitBody, head, hpeek, hbytes]
    rfl
  cases hbody : r.body with
  | none =>
    rw [Unmisleading, hbody] at hunmisleading
    rw [hbody] at ht
    have hempty : Text.asBytes seen = [] ∧ Text.asBytes unseen = [] := by
      rw [Text.asBytes_append] at ht
      exact List.append_eq_nil_iff.mp ht
    have hnone : late = [] := by
      rw [hempty.2, List.flatten_eq_nil_iff] at hlate
      exact List.eq_nil_iff_forall_not_mem.mpr fun s hs => hnonempty (hlate s hs ▸ hs)
    exact hwhole hnone hunmisleading.1 (hunmisleading.2 seen hempty.1)
  | chunked chunks last trailers =>
    rw [Unmisleading, hbody] at hunmisleading
    have hnone : late = [] := hchunked (by rw [hbody]; trivial)
    have hunseen : unseen = [] := by
      rw [hnone] at hlate
      exact Text.asBytes_injective hlate.symm
    rw [hunseen, List.append_nil, hbody] at ht
    exact hwhole hnone hunmisleading.1 (hunmisleading.2 seen ht)
  | sized data =>
    have hpeek := peekContentLength_sized h.unmisleading hbody seen
    have hmax : ¬ maxBodySize < data.length := by
      have hlimit := h.limits.body
      rw [hbody] at hlimit
      exact not_lt.mpr hlimit
    have htotal : front.length + late.flatten.length =
        Text.utf8Len (joinLines r.lines) + 4 + data.length := by
      rw [← List.length_append, hbytes, bytes, List.length_append, hbody, r.head_eq,
        ← Text.utf8Len, Text.utf8Len_append]
      rfl
    simp only [awaitBody, hpeek, if_neg hmax, splitOnceStr_head]
    rw [readUpTo_reads (Nat.le_add_right _ _) hnonempty htotal, hbytes]

theorem parseRequest_request (hlimits : r.WithinLimits) (trap : Bool)
    (hread : readBody trap ⟨r.headers.map HeaderLine.header⟩ t = some (.ok r.body.content)) :
    parseRequest trap (r.head ++ t) =
      some (.ok (r.request, Text.utf8Len (joinLines r.lines) + 4)) := by
  simp only [parseRequest, parseHead_head hlimits, hread, Option.map_some]
  rfl

theorem readRequest_reads (hcut : r.CutInto segments)
    (h : r.Readable segments) (trap : Bool) (others : List Bytes) (failure : Option IoError) :
    readRequest trap ⟨segments ++ others, failure⟩ = some (.ok (r.request, ⟨others, failure⟩)) := by
  obtain ⟨t, ht, hread⟩ := readBody_body h.plain h.limits
  have hall : r.bytes = Text.asBytes (r.head ++ t) := by rw [bytes, ← ht, Text.asBytes_append]
  have hhead : Text.utf8Len r.head ≤ segments.flatten.length := by
    rw [hcut.flatten, bytes, List.length_append, Text.utf8Len]
    exact Nat.le_add_right _ _
  obtain ⟨early, here, late, rfl, hbefore, hbehind⟩ :=
    exists_segment_crossing r.utf8Len_head_pos hhead
  obtain ⟨hchunked, hboundary⟩ := h.headRead early here late rfl hbefore hbehind
  have hflatten : early.flatten ++ here ++ late.flatten = r.bytes := by
    rw [← hcut.flatten]
    simp
  obtain ⟨seen, unseen, rfl, hfront, hlate⟩ :=
    exists_text_of_boundary ht hflatten hbehind (hboundary t ht)
  have hheader : readHeader (maxHeaderBuf + 1) 4096 []
      ⟨early ++ here :: late ++ others, failure⟩ =
        .ok (early.flatten ++ here, ⟨late ++ others, failure⟩) := by
    rw [List.append_assoc, List.cons_append]
    refine readHeader_start h.limits.head ?_ hbefore hbehind ?_ ?_
    · intro front hprefix
      apply hasHeadEnd_iff_head
      exact hprefix.trans ⟨late.flatten, hflatten⟩
    · intro hmem
      apply hcut.nonempty
      rw [← List.singleton_append, ← List.append_assoc]
      exact List.mem_append_left _ hmem
    · intro e s l hsplit
      have hwhole : early ++ here :: late = e ++ s :: (l ++ late) := by
        rw [← List.singleton_append, ← List.append_assoc, hsplit]
        simp
      apply hcut.room e s (l ++ late) hwhole
      -- what stands before the read in which the head ends is shorter than the head
      obtain ⟨x, rfl⟩ : e <+: early := by
        refine List.prefix_of_prefix_length_le ⟨s :: l, hsplit.symm⟩ (List.prefix_append _ _) ?_
        have hlen := congrArg List.length hsplit
        simp only [List.length_append, List.length_cons, List.length_nil] at hlen
        omega
      rw [List.flatten_append, List.length_append] at hbefore
      omega
  have hbody := awaitBody_reads h ht hfront hlate
    (fun hmem => hcut.nonempty (by simp [hmem])) hchunked others failure
  have hutf8 : Text.fromUtf8 (early.flatten ++ here) = some (r.head ++ seen) :=
    Text.fromUtf8_eq_some_iff.mpr hfront
  have hutf8' : Text.fromUtf8 r.bytes = some (r.head ++ (seen ++ unseen)) :=
    Text.fromUtf8_eq_some_iff.mpr hall
  simp only [readRequest, hheader, hutf8, hbody, hutf8', parseRequest_request h.limits trap (hread trap),
    Option.map_some]
  rfl

/-- What comes in the read of a request without a body, and does not belong to it, is lost. -/
theorem readRequest_overread (hnone : r.body = .none) (hlimits : r.WithinLimits)
    (hlines : ∀ line ∈ r.lines, Silent line) {more : Text} (hmore : Silent more)
    (hroom : (Text.asBytes (r.head ++ more)).length ≤ 4096) (trap : Bool)
    (failure : Option IoError) :
    readRequest trap ⟨[Text.asBytes (r.head ++ more)], failure⟩ =
      some (.ok (r.request, ⟨[], failure⟩)) := by
  generalize hread : Text.asBytes (r.head ++ more) = read at hroom ⊢
  have hsplit : read = Text.asBytes r.head ++ Text.asBytes more := by
    rw [← hread, Text.asBytes_append]
  have hhead : Text.utf8Len r.head ≤ read.length := by
    rw [hsplit, List.length_append, Text.utf8Len]
    exact Nat.le_add_right _ _
  have hne : read ≠ [] := by
    have hpos := r.utf8Len_head_pos
    intro hnil
    rw [hnil] at hhead
    exact absurd (hpos.trans_le hhead) (Nat.lt_irrefl 0)
  have hheader : readHeader (maxHeaderBuf + 1) 4096 [] ⟨[read], failure⟩ =
      .ok (read, ⟨[], failure⟩) := by
    refine @readHeader_start failure _ [] read [] hlimits.head ?_ r.utf8Len_head_pos hhead
      (by simpa using hne.symm) ?_
    · intro front hprefix
      rw [List.flatten_nil, List.nil_append, hsplit] at hprefix
      exact hasHeadEnd_iff_head hprefix
    · intro e s l hcut
      cases e with
      | nil =>
        obtain ⟨rfl, -⟩ := List.cons.inj hcut
        simpa [bufferSize] using hroom
      | cons segment e => simp at hcut
  have hpeek : peekContentLength (r.head ++ more) = Option.none := by
    exact peekContentLength_silent hlines hmore
  have hannounced := r.announced
  rw [hnone] at hannounced
  have hbody : readBody trap ⟨r.headers.map HeaderLine.header⟩ more = some (.ok r.body.content) := by
    simp [readBody, Headers.isChunked, Headers.contentLength, hannounced.1, hannounced.2, hnone,
      WireBody.content]
  have hutf8 : Text.fromUtf8 read = some (r.head ++ more) := Text.fromUtf8_eq_some_iff.mpr hread.symm
  simp only [readRequest, hheader, hutf8, awaitBody, hpeek, parseRequest_request hlimits trap hbody,
    Option.map_some]
  rfl

theorem cutInto_single (hlen : r.bytes.length ≤ 4096) : r.CutInto [r.bytes] where
  flatten := by simp
  nonempty := by
    have hpos := r.utf8Len_head_pos
    intro hmem
    have hnil : Text.asBytes r.head ++ r.body.bytes = [] := (List.mem_singleton.mp hmem).symm
    rw [Text.utf8Len, (List.append_eq_nil_iff.mp hnil).1] at hpos
    cases hpos
  room := by
    intro early here late hcut _
    cases early with
    | nil =>
      obtain ⟨rfl, -⟩ := List.cons.inj hcut
      simpa [bufferSize] using hlen
    | cons segment early => simp at hcut

theorem readable_single (hplain : r.body.Plain) (hlimits : r.WithinLimits)
    (hunmisleading : r.Unmisleading) : r.Readable [r.bytes] where
  plain := hplain
  limits := hlimits
  unmisleading := hunmisleading
  headRead := by
    intro early here late hcut _ _
    cases early with
    | nil =>
      obtain ⟨rfl, rfl⟩ := List.cons.inj hcut
      refine ⟨fun _ => rfl, ?_⟩
      intro t ht
      refine ⟨r.head ++ t, [], (List.append_nil _).symm, ?_⟩
      rw [Text.utf8Len, Text.asBytes_append, ht, List.flatten_nil, List.nil_append, bytes]
    | cons segment early => simp at hcut

end WireRequest

section Run
variable {trap : Bool} {handler : Handler} {failure : Option IoError} {requests : List WireRequest}
  {cuts : List (List Bytes)}

theorem isClose_of_isKeepAlive {headers : Headers} (h : headers.isKeepAlive = true) :
    headers.isClose = false := by
  unfold Headers.isKeepAlive at h
  unfold Headers.isClose
  cases hvalue : headers.connection with
  | none => rfl
  | some value =>
    simp only [hvalue, Option.map_some, Option.getD_some, Text.eqIgnoreAsciiCase,
      decide_eq_true_eq, decide_eq_false_iff_not] at h ⊢
    rw [h]
    decide

theorem converse_end (fuel : ℕ) (d : Dialogue) :
    (converse trap handler fuel d ⟨[], failure⟩).calls = d.calls := by
  cases fuel with
  | zero => rfl
  | succ fuel =>
    have hread : ∃ e, readRequest trap ⟨[], failure⟩ = some (.error e) := by
      cases failure with
      | none => exact ⟨.connectionClosed, rfl⟩
      | some e =>
        by_cases htimeout : e.kind = .wouldBlock ∨ e.kind = .timedOut
        · exact ⟨.timeout, by simp [readRequest, readHeader, ByteStream.read, htimeout, maxHeaderBuf]⟩
        · exact ⟨.io e, by simp [readRequest, readHeader, ByteStream.read, htimeout, maxHeaderBuf]⟩
    obtain ⟨e, hread⟩ := hread
    rw [converse, hread]
    cases e <;> rfl

theorem converse_reads (hcut : List.Forall₂ WireRequest.CutInto requests cuts)
    (h : List.Forall₂ WireRequest.Readable requests cuts)
    (hanswer : ∀ r ∈ requests, ∀ calls, (handler calls r.request).status ≠ 101) {fuel : ℕ}
    (hfuel : requests.length ≤ fuel) (d : Dialogue) :
    (converse trap handler fuel d ⟨cuts.flatten, failure⟩).calls =
      d.calls ++ requests.map WireRequest.request := by
  induction hcut generalizing fuel d with
  | nil => rw [List.flatten_nil, converse_end, List.map_nil, List.append_nil]
  | @cons r segments requests cuts hfirst hrest ih =>
    cases h with
    | cons hreadable h =>
      cases fuel with
      | zero => cases hfuel
      | succ fuel =>
        have hread := WireRequest.readRequest_reads hfirst hreadable trap cuts.flatten failure
        have hkeep : r.request.headers.isKeepAlive = true := r.keepAlive
        obtain ⟨hhere, hanswer⟩ := List.forall_mem_cons.mp hanswer
        rw [List.flatten_cons, converse, hread]
        simp only [hkeep, isClose_of_isKeepAlive hkeep, hhere, Bool.not_false, Bool.and_self,
          not_true, or_self, if_false]
        rw [ih h hanswer (Nat.le_of_succ_le_succ hfuel)]
        simp

theorem length_le_flatten (hcut : List.Forall₂ WireRequest.CutInto requests cuts) :
    requests.length ≤ cuts.flatten.flatten.length := by
  induction hcut with
  | nil => simp
  | @cons r segments requests cuts hfirst hrest ih =>
    have hpos := r.utf8Len_head_pos
    have hlen := congrArg List.length hfirst.flatten
    rw [WireRequest.bytes, List.length_append, ← Text.utf8Len] at hlen
    rw [List.flatten_cons, List.flatten_append, List.length_append, List.length_cons]
    omega

end Run

/-- On a connection whose reads bring one request each, or parts of one, and bring them so that
each is readable, the handler is called for the requests that were sent, in their order, if it
answers none of them with 101. -/
theorem handler_sees_requests (trap : Bool) (handler : Handler) (failure : Option IoError)
    (requests : List WireRequest) (cuts : List (List Bytes))
    (hcut : List.Forall₂ WireRequest.CutInto requests cuts)
    (hreadable : List.Forall₂ WireRequest.Readable requests cuts)
    (hanswer : ∀ r ∈ requests, ∀ calls, (handler calls r.request).status ≠ 101) :
    (handleConnection trap handler ⟨cuts.flatten, failure⟩).calls =
      requests.map WireRequest.request := by
  have hfuel := length_le_flatten hcut
  exact converse_reads hcut hreadable hanswer (hfuel.trans (Nat.le_succ _)) ⟨[], []⟩

namespace Sample

def keepAliveLine : HeaderLine where
  name := "Connection".toList
  lead := [' ']
  value := "keep-alive".toList
  trail := []
  name_ne_nil := by decide
  name_clean := List.all_iff_forall_prop.mp (by decide)
  lead_blank := List.all_iff_forall_prop.mp (by decide)
  trail_blank := List.all_iff_forall_prop.mp (by decide)
  value_clean := List.all_iff_forall_prop.mp (by decide)
  value_trimmed := by decide

def ping : WireRequest where
  method := .get
  uri := ['/']
  version := "HTTP/1.1".toList
  headers := [keepAliveLine]
  body := .none
  uri_clean := List.all_iff_forall_prop.mp (by decide)
  version_http := by decide
  version_clean := List.all_iff_forall_prop.mp (by decide)
  announced := ⟨by decide, by decide⟩
  keepAlive := by decide

theorem ping_lines_silent : ∀ line ∈ ping.lines, Silent line := by
  intro line hline
  rcases List.mem_pair.mp (show line ∈ [ping.requestLine, keepAliveLine.line] from hline) with
    rfl | rfl
  · unfold Silent
    decide +kernel
  · unfold Silent
    decide +kernel

theorem ping_cutInto : ping.CutInto [ping.bytes] := WireRequest.cutInto_single (by decide +kernel)

theorem ping_limits : ping.WithinLimits where
  requestLine := by decide +kernel
  headerLines := by
    intro h hh
    rw [List.mem_singleton.mp hh]
    decide +kernel
  headers := by decide
  head := by decide +kernel
  body := by decide

theorem ping_readable : ping.Readable [ping.bytes] := by
  refine WireRequest.readable_single trivial ping_limits ⟨ping_lines_silent, ?_⟩
  intro t ht
  obtain rfl : t = [] := Text.asBytes_injective ht
  rfl

/-- A handler that hands the connection over for one path. -/
def wsHandler : Handler := fun _ req => if req.uri = "/ws".toList then .new 101 else .ok

end Sample

open Sample in
theorem pings_seen : (handleConnection true wsHandler ⟨[ping.bytes, ping.bytes], none⟩).calls =
    [ping.request, ping.request] := by
  have hanswer (calls : List Request) : (wsHandler calls ping.request).status ≠ 101 :=
    show (200 : ℕ) ≠ 101 by decide
  exact handler_sees_requests true wsHandler none [ping, ping] [[ping.bytes], [ping.bytes]]
    (.cons ping_cutInto (.cons ping_cutInto .nil)) (.cons ping_readable (.cons ping_readable .nil))
    (by simpa using hanswer)

open Sample in
/-- Two requests in one read: the second is dropped with the buffer. -/
theorem pipelined_ping_lost :
    (handleConnection true wsHandler ⟨[ping.bytes ++ ping.bytes], none⟩).calls = [ping.request] := by
  have hbytes : ping.bytes ++ ping.bytes = Text.asBytes (ping.head ++ ping.head) := by
    rw [Text.asBytes_append]
    exact congrArg₂ _ (List.append_nil _) (List.append_nil _)
  have hsilent : Silent ping.head := by
    unfold Silent
    decide +kernel
  have hread := WireRequest.readRequest_overread (r := ping) rfl ping_limits ping_lines_silent hsilent
    (by decide +kernel) true none
  have hkeep : ping.request.headers.isKeepAlive = true := ping.keepAlive
  have hanswer : (wsHandler [] ping.request).status ≠ 101 := show (200 : ℕ) ≠ 101 by decide
  rw [hbytes, handleConnection, converse, hread]
  simp only [hkeep, isClose_of_isKeepAlive hkeep, hanswer, Bool.not_false, Bool.and_self, not_true,
    or_self, if_false]
  rfl

end Desmos.Http
