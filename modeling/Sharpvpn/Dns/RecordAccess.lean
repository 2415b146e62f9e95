import Sharpvpn.Dns.WireMessage

/-!
# Reading the entries of a message

The parser reads an entry of a section by moving a handle over the entries before it. What it
reads does not depend on the calls made before.
-/

namespace Sharpvpn

open Foundation.Layout

/-- `dn_expand`. The length it gives for a name is that of the name in the message. -/
structure DnExpand where
  expand : Octets → Nat → Nat → Option (Nat × Bytes)
  skips : ∀ mem eom pos b name, expand mem eom pos = some (b, name) →
    localNsNameSkip mem eom pos = some (pos + b)

/-- The fields of an entry as the parser gives them, from where they stand. -/
def NsSect.rr : (sect : NsSect) → sect.Fields → Bytes → Nat → NsRr
  | .qd, fields, name, _ => ⟨name, fields.type, fields.rrClass, 0, 0, none⟩
  | .an, fields, name, ptr | .ns, fields, name, ptr | .ar, fields, name, ptr =>
      ⟨name, fields.type, fields.rrClass, fields.ttl, UInt16.ofNat fields.rdata.length,
        some (ptr + 10)⟩

section Fields

variable {mem : Octets} {handle : NsMsg} {ptr : Nat}

/-- The handle behind an entry that has been read. -/
def NsMsg.behind (handle : NsMsg) (ptr : Nat) : NsMsg :=
  { handle with msgPtr := some ptr, rrnum := handle.rrnum + 1 }

theorem parseFields_question {fields : QuestionFields} (hfields : StandsAt mem ptr fields.bytes)
    (hle : ptr + fields.bytes.length ≤ handle.eom)
    (hcount : ¬handle.rrnum + 1 > ((handle.counts .qd).toNat : Int)) (name : Bytes) :
    handle.parseFields mem .qd name ptr = (handle.behind (ptr + fields.bytes.length),
      some (NsSect.rr .qd fields name ptr)) := by
  have hle : ptr + 4 ≤ handle.eom := hle
  obtain ⟨htype, hclass⟩ := standsAt_append.mp hfields
  rw [length_put16, standsAt_put16] at hclass
  unfold NsMsg.parseFields
  simp only [if_neg hcount]
  rw [if_neg (by omega), if_pos trivial, standsAt_put16.mp htype, hclass]
  rfl

theorem parseFields_record {sect : NsSect} {fields : RecordFields} (hsect : sect ≠ .qd)
    (hfields : StandsAt mem ptr fields.bytes) (hle : ptr + fields.bytes.length ≤ handle.eom)
    (hcount : ¬handle.rrnum + 1 > ((handle.counts sect).toNat : Int)) (name : Bytes) :
    handle.parseFields mem sect name ptr = (handle.behind (ptr + fields.bytes.length),
      some (NsSect.rr .an fields name ptr)) := by
  obtain ⟨hquestion, httl, hrdlength, -⟩ := standsAt_recordFields.mp hfields
  obtain ⟨htype, hclass⟩ := standsAt_append.mp hquestion
  rw [length_put16, standsAt_put16] at hclass
  have hlt := fields.length_lt
  rw [length_recordFields] at hle ⊢
  unfold NsMsg.parseFields
  simp only [if_neg hcount]
  rw [if_neg (by omega), if_neg hsect, if_neg (by omega), hrdlength, UInt16.toNat_ofNat',
    Nat.mod_eq_of_lt hlt, if_neg (by omega), standsAt_put16.mp htype, hclass, httl, Nat.add_assoc]
  rfl

end Fields

namespace DnsMessage

variable (message : DnsMessage)

/-- Where an entry of a section stands. -/
def position (sect : NsSect) (i : Nat) : Nat :=
  message.offset sect + (((message.entries sect).take i).flatMap sect.bytes).length

/-- The `i`th entry of a section, read by itself. -/
def entryAt (dnExpand : DnExpand) (mem : Octets) (sect : NsSect) (i : Nat) : Option NsRr :=
  (message.entries sect)[i]?.bind fun entry =>
    (dnExpand.expand mem message.bytes.length (message.position sect i)).map fun expanded =>
      sect.rr entry.2 expanded.2 (message.position sect i + entry.1.bytes.length)

/-- A handle that stands at an entry of a section, or behind the last one. -/
structure Handles (handle : NsMsg) : Prop where
  eom_eq : handle.eom = message.bytes.length
  counts_eq : handle.counts = message.count
  sections_eq : handle.sections = message.handle.sections
  at_entry : ∀ sect, handle.sect = some sect → ∃ i : Nat, handle.rrnum = i ∧
    i ≤ (message.entries sect).length ∧
    (message.entries sect ≠ [] → handle.msgPtr = some (message.position sect i))

variable {message} {mem : Octets} {handle : NsMsg} {sect : NsSect}

theorem handles_handle : message.Handles message.handle :=
  ⟨rfl, rfl, rfl, fun _ hsect => nomatch hsect⟩

theorem position_add {i : Nat} (count : Nat) : message.position sect (i + count) =
    message.position sect i +
      ((((message.entries sect).drop i).take count).flatMap sect.bytes).length := by
  unfold position
  rw [List.take_add, List.flatMap_append, List.length_append, Nat.add_assoc]

theorem Handles.setSection (hhandles : message.Handles handle) :
    message.Handles (handle.setSection (some sect)) where
  eom_eq := hhandles.eom_eq
  counts_eq := hhandles.counts_eq
  sections_eq := hhandles.sections_eq
  at_entry := by
    rintro other hother
    obtain rfl := Option.some.inj hother
    refine ⟨0, rfl, Nat.zero_le _, fun hne => ?_⟩
    show handle.sections sect = _
    rw [hhandles.sections_eq]
    unfold DnsMessage.handle
    dsimp only
    rw [if_neg (by rwa [List.isEmpty_iff])]
    rfl

section Standing

variable (hstands : StandsAt mem 0 message.bytes)

include hstands

/-- A section stands where it begins, within the message. -/
theorem standsAt_section (sect : NsSect) :
    StandsAt mem (message.offset sect) ((message.entries sect).flatMap sect.bytes) ∧
      message.offset sect + ((message.entries sect).flatMap sect.bytes).length ≤
        message.bytes.length := by
  have hall : NsSect.all = NsSect.all.takeWhile (· ≠ sect) ++
      sect :: (NsSect.all.dropWhile (· ≠ sect)).tail := by
    cases sect <;> rfl
  have hsplit : sectionBytes message.entries NsSect.all =
      sectionBytes message.entries (NsSect.all.takeWhile (· ≠ sect)) ++
        ((message.entries sect).flatMap sect.bytes ++
          sectionBytes message.entries (NsSect.all.dropWhile (· ≠ sect)).tail) := by
    conv_lhs => rw [hall]
    unfold sectionBytes
    rw [List.flatMap_append, List.flatMap_cons]
  have hbody := (standsAt_append.mp hstands).2
  rw [length_header, Nat.zero_add, hsplit] at hbody
  refine ⟨(standsAt_append.mp (standsAt_append.mp hbody).2).1, ?_⟩
  rw [length_bytes, hsplit, List.length_append, List.length_append]
  unfold offset
  omega

/-- The entries from the `i`th on. -/
theorem standsAt_position (sect : NsSect) (i : Nat) :
    StandsAt mem (message.position sect i)
        (((message.entries sect).drop i).flatMap sect.bytes) ∧
      message.position sect i + (((message.entries sect).drop i).flatMap sect.bytes).length ≤
        message.bytes.length := by
  obtain ⟨hsection, hle⟩ := standsAt_section hstands sect
  rw [← List.take_append_drop i (message.entries sect), List.flatMap_append] at hsection
  rw [← List.take_append_drop i (message.entries sect), List.flatMap_append,
    List.length_append] at hle
  refine ⟨(standsAt_append.mp hsection).2, ?_⟩
  unfold position
  omega

theorem standsAt_entry {i : Nat} {entry : sect.Entry}
    (hentry : (message.entries sect)[i]? = some entry) :
    StandsAt mem (message.position sect i) entry.1.bytes ∧
      StandsAt mem (message.position sect i + entry.1.bytes.length) (sect.fieldsBytes entry.2) ∧
      message.position sect i + (sect.bytes entry).length = message.position sect (i + 1) ∧
      message.position sect (i + 1) ≤ message.bytes.length := by
  obtain ⟨hlt, rfl⟩ := List.getElem?_eq_some_iff.mp hentry
  have hstand := (standsAt_position hstands sect i).1
  rw [List.drop_eq_getElem_cons hlt, List.flatMap_cons] at hstand
  obtain ⟨hname, hfields⟩ := standsAt_append.mp (standsAt_append.mp hstand).1
  refine ⟨hname, hfields, ?_, ?_⟩
  · rw [position_add, List.drop_eq_getElem_cons hlt, List.take_succ_cons, List.take_zero,
      List.flatMap_singleton]
  · exact Nat.le_trans (Nat.le_add_right _ _) (standsAt_position hstands sect (i + 1)).2

/-- Skipping so many entries from one of them leads to a later one. -/
theorem localNsSkiprr_position (sect : NsSect) (i count : Nat)
    (hle : i + count ≤ (message.entries sect).length) :
    (localNsSkiprr mem message.bytes.length sect count (message.position sect i)).map
        (message.position sect i + ·) = some (message.position sect (i + count)) := by
  obtain ⟨hbehind, hend⟩ := standsAt_position hstands sect i
  rw [← List.take_append_drop count ((message.entries sect).drop i), List.flatMap_append]
    at hbehind hend
  rw [List.length_append] at hend
  have hlength : (((message.entries sect).drop i).take count).length = count := by
    rw [List.length_take, List.length_drop]
    omega
  have hskip := localNsSkiprr_of_stands (standsAt_append.mp hbehind).1
    (show _ ≤ message.bytes.length by omega)
  rw [hlength] at hskip
  rw [hskip, Option.map_some, position_add]

/-- The handle is moved to the entry that is asked for, if the section has it. -/
theorem Handles.seek (hhandles : message.Handles handle) (sect : NsSect) (rrnum : Nat) :
    message.Handles (handle.seek mem sect rrnum).1 ∧
      (if rrnum < (message.entries sect).length then
        (handle.seek mem sect rrnum).2 = some (message.position sect rrnum) ∧
          (handle.seek mem sect rrnum).1.sect = some sect ∧
          (handle.seek mem sect rrnum).1.rrnum = rrnum
      else (handle.seek mem sect rrnum).2 = none) := by
  unfold NsMsg.seek
  generalize hentered : (if handle.sect = some sect then handle
    else handle.setSection (some sect)) = made
  obtain ⟨hmade, hsect⟩ : message.Handles made ∧ made.sect = some sect := by
    rw [← hentered]
    split
    next hsect => exact ⟨hhandles, hsect⟩
    next => exact ⟨hhandles.setSection, rfl⟩
  have hcount : (made.counts sect).toNat = (message.entries sect).length := by
    rw [hmade.counts_eq, message.toNat_count]
  have hgiven : ¬(rrnum : Int) = -1 := by omega
  simp only [if_neg hgiven, hcount]
  split
  next hout =>
    rw [if_neg (by omega)]
    exact ⟨hmade, rfl⟩
  next hin =>
    have hlt : rrnum < (message.entries sect).length := by omega
    have hne : message.entries sect ≠ [] := by
      intro hnil
      rw [hnil] at hlt
      exact absurd hlt (Nat.not_lt_zero _)
    rw [if_pos hlt]
    generalize hturned : (if (rrnum : Int) < made.rrnum then made.setSection (some sect)
      else made) = back
    obtain ⟨hback, hsect, i, hi, hle⟩ : message.Handles back ∧ back.sect = some sect ∧
        ∃ i : Nat, back.rrnum = i ∧ i ≤ rrnum := by
      rw [← hturned]
      split
      next => exact ⟨hmade.setSection, rfl, 0, rfl, Nat.zero_le _⟩
      next hbelow =>
        obtain ⟨i, hi, -, -⟩ := hmade.at_entry sect hsect
        exact ⟨hmade, hsect, i, hi, by omega⟩
    obtain ⟨j, hj, -, hptr⟩ := hback.at_entry sect hsect
    obtain rfl : i = j := by omega
    rw [hptr hne]
    dsimp only
    split
    next habove =>
      have hskip := localNsSkiprr_position hstands sect i (rrnum - i) (by omega)
      rw [Nat.add_sub_cancel' hle] at hskip
      obtain ⟨b, hb, hposition⟩ := Option.map_eq_some_iff.mp hskip
      have hcount : ((rrnum : Int) - back.rrnum).toNat = rrnum - i := by omega
      have hskipped : localNsSkiprr mem back.eom sect ((rrnum : Int) - back.rrnum).toNat
          (message.position sect i) = some b := by
        rw [hback.eom_eq, hcount, hb]
      rw [hskipped]
      dsimp only
      refine ⟨⟨hback.eom_eq, hback.counts_eq, hback.sections_eq, fun other hother => ?_⟩, ?_,
        hsect, rfl⟩
      · obtain rfl := Option.some.inj (hsect.symm.trans hother)
        exact ⟨rrnum, rfl, Nat.le_of_lt hlt, fun _ => congrArg some hposition⟩
      · exact congrArg some hposition
    next hnot =>
      obtain rfl : i = rrnum := by omega
      exact ⟨hback, rfl, hsect, hi⟩

/-- What follows the name of an entry is read, and the handle moved behind it. -/
theorem Handles.parseFields (hhandles : message.Handles handle) {i : Nat} {entry : sect.Entry}
    (hentry : (message.entries sect)[i]? = some entry) (hsect : handle.sect = some sect)
    (hrrnum : handle.rrnum = i) (name : Bytes) {ptr : Nat}
    (hptr : ptr = message.position sect i + entry.1.bytes.length) :
    message.Handles (handle.parseFields mem sect name ptr).1 ∧
      (handle.parseFields mem sect name ptr).2 = some (sect.rr entry.2 name ptr) := by
  obtain ⟨-, hfields, hend, hle⟩ := standsAt_entry hstands hentry
  have hlt := (List.getElem?_eq_some_iff.mp hentry).1
  have hposition : message.position sect (i + 1) = ptr + (sect.fieldsBytes entry.2).length := by
    rw [← hend, hptr, Nat.add_assoc]
    exact congrArg _ List.length_append
  have hbehind : message.Handles (handle.behind (message.position sect (i + 1))) := by
    refine ⟨hhandles.eom_eq, hhandles.counts_eq, hhandles.sections_eq, fun other hother => ?_⟩
    obtain rfl := Option.some.inj (hsect.symm.trans hother)
    exact ⟨i + 1, congrArg (· + 1) hrrnum, hlt, fun _ => rfl⟩
  have hcount : ¬handle.rrnum + 1 > ((handle.counts sect).toNat : Int) := by
    rw [hhandles.counts_eq, message.toNat_count]
    omega
  rw [← hptr] at hfields
  rw [hposition, ← hhandles.eom_eq] at hle
  rw [hposition] at hbehind
  cases sect with
  | qd =>
      rw [parseFields_question hfields hle hcount name]
      exact ⟨hbehind, rfl⟩
  | an | ns | ar =>
      rw [parseFields_record (by decide) hfields hle hcount name]
      exact ⟨hbehind, rfl⟩

/-- A call reads the entry that is asked for, wherever the handle stood. -/
theorem Handles.parserr (hhandles : message.Handles handle) (dnExpand : DnExpand) (sect : NsSect)
    (rrnum : Nat) :
    message.Handles (handle.parserr dnExpand.expand mem sect rrnum).1 ∧
      (handle.parserr dnExpand.expand mem sect rrnum).2 =
        message.entryAt dnExpand mem sect rrnum := by
  obtain ⟨hmoved, hseek⟩ := hhandles.seek hstands sect rrnum
  unfold NsMsg.parserr entryAt
  generalize handle.seek mem sect rrnum = sought at hmoved hseek
  obtain ⟨moved, found⟩ := sought
  dsimp only at hmoved hseek
  split at hseek
  next hlt =>
    obtain ⟨rfl, hsect, hrrnum⟩ := hseek
    have hentry := List.getElem?_eq_getElem hlt
    obtain ⟨hname, -, hend, hle⟩ := standsAt_entry hstands hentry
    rw [hentry, Option.bind_some]
    dsimp only
    rw [hmoved.eom_eq]
    cases hexpand : dnExpand.expand mem message.bytes.length (message.position sect rrnum) with
    | none => exact ⟨hmoved, rfl⟩
    | some expanded =>
        obtain ⟨b, name⟩ := expanded
        dsimp only
        obtain rfl : b = (message.entries sect)[rrnum].1.bytes.length := by
          have hskip := dnExpand.skips _ _ _ _ _ hexpand
          rw [localNsNameSkip_complete _ _ hname (by
            unfold NsSect.bytes pairLayout at hend
            rw [List.length_append] at hend
            omega)] at hskip
          exact Nat.add_left_cancel (Option.some.inj hskip).symm
        exact hmoved.parseFields hstands hentry hsect hrrnum name rfl
  next hge =>
    subst hseek
    rw [List.getElem?_eq_none (by omega)]
    exact ⟨hmoved, rfl⟩

/-- The data of an entry lie within the message. -/
theorem rdata_within {dnExpand : DnExpand} {i : Nat} {rr : NsRr}
    (hrr : message.entryAt dnExpand mem sect i = some rr) :
    ∀ ptr ∈ rr.rdata, ptr + rr.rdlength.toNat ≤ message.bytes.length := by
  obtain ⟨entry, hentry, hmap⟩ := Option.bind_eq_some_iff.mp hrr
  obtain ⟨expanded, -, rfl⟩ := Option.map_eq_some_iff.mp hmap
  obtain ⟨-, -, hend, hle⟩ := standsAt_entry hstands hentry
  have hlength : (sect.bytes entry).length =
      entry.1.bytes.length + (sect.fieldsBytes entry.2).length := List.length_append
  intro ptr hptr
  cases sect with
  | qd => cases hptr
  | an | ns | ar =>
      obtain rfl := Option.some.inj hptr
      have hfields := length_recordFields entry.2
      have hrdlength : (UInt16.ofNat entry.2.rdata.length).toNat = entry.2.rdata.length := by
        rw [UInt16.toNat_ofNat', Nat.mod_eq_of_lt entry.2.length_lt]
      show _ + (UInt16.ofNat entry.2.rdata.length).toNat ≤ _
      have hsame : (NsSect.fieldsBytes _ entry.2).length =
        (RecordFields.bytes entry.2).length := rfl
      omega

end Standing

end DnsMessage

/-- Entries read one after another with one handle. -/
def readEntries (dnExpand : DnExpand) (mem : Octets) : NsMsg → List (NsSect × Nat) →
    List (Option NsRr)
  | _, [] => []
  | handle, call :: rest =>
      let answer := handle.parserr dnExpand.expand mem call.1 call.2
      answer.2 :: readEntries dnExpand mem answer.1 rest

theorem DnsMessage.Handles.readEntries {message : DnsMessage} {mem : Octets} {handle : NsMsg}
    (hstands : StandsAt mem 0 message.bytes) (hhandles : message.Handles handle)
    (dnExpand : DnExpand) (calls : List (NsSect × Nat)) :
    Sharpvpn.readEntries dnExpand mem handle calls =
      calls.map fun call => message.entryAt dnExpand mem call.1 call.2 := by
  induction calls generalizing handle with
  | nil => rfl
  | cons call rest ih =>
      obtain ⟨hmoved, hanswer⟩ := hhandles.parserr hstands dnExpand call.1 call.2
      rw [Sharpvpn.readEntries, List.map_cons, hanswer, ih hmoved]

/-- Whatever calls are made on a message that was accepted, and in whatever order, each gives
the entry that is asked for, and data within the message. -/
theorem readEntries_of_initparse {mem : Octets} {msglen : Nat} {handle : NsMsg}
    (hparse : NsMsg.initparse mem msglen = some handle) (dnExpand : DnExpand)
    (calls : List (NsSect × Nat)) :
    ∃ message : DnsMessage, StandsAt mem 0 message.bytes ∧ message.bytes.length = msglen ∧
      readEntries dnExpand mem handle calls =
        calls.map (fun call => message.entryAt dnExpand mem call.1 call.2) ∧
      ∀ rr, some rr ∈ readEntries dnExpand mem handle calls →
        ∀ ptr ∈ rr.rdata, ptr + rr.rdlength.toNat ≤ msglen := by
  obtain ⟨message, hstands, rfl, rfl⟩ := NsMsg.initparse_eq_some_iff.mp hparse
  have hreads := DnsMessage.handles_handle.readEntries hstands dnExpand calls
  refine ⟨message, hstands, rfl, hreads, fun rr hrr => ?_⟩
  rw [hreads] at hrr
  obtain ⟨call, -, hcall⟩ := List.mem_map.mp hrr
  exact DnsMessage.rdata_within hstands hcall

/-- `dn_expand` on names that are the root. -/
def DnExpand.root : DnExpand where
  expand mem eom pos := if pos < eom ∧ mem pos = 0 then some (1, []) else none
  skips := by
    intro mem eom pos b name hexpand
    split at hexpand
    next hroot =>
      obtain ⟨rfl, -⟩ := Prod.mk.inj (Option.some.inj hexpand)
      rw [localNsNameSkip, if_pos hroot.1, if_pos hroot.2]
    next => cases hexpand

/-- A response on the root with one address, 10.7.0.2. -/
def rootResponse : Bytes :=
  [0, 9, 0x81, 0x80, 0, 1, 0, 1, 0, 0, 0, 0] ++ [0, 0, 1, 0, 1] ++
    [0, 0, 1, 0, 1, 0, 0, 0, 60, 0, 4, 10, 7, 0, 2]

/-- A datagram in a buffer of zeros. -/
def octetsOf (bytes : Bytes) : Octets := fun i => bytes.getD i 0

theorem readEntries_of_initparse_root : ∃ handle,
    NsMsg.initparse (octetsOf rootResponse) 32 = some handle ∧
    ∃ message : DnsMessage, StandsAt (octetsOf rootResponse) 0 message.bytes ∧
      message.bytes.length = 32 ∧
      readEntries .root (octetsOf rootResponse) handle [(.an, 0), (.qd, 0), (.an, 0)] =
        [(.an, 0), (.qd, 0), (.an, 0)].map
          (fun call => message.entryAt .root (octetsOf rootResponse) call.1 call.2) ∧
      ∀ rr, some rr ∈
          readEntries .root (octetsOf rootResponse) handle [(.an, 0), (.qd, 0), (.an, 0)] →
        ∀ ptr ∈ rr.rdata, ptr + rr.rdlength.toNat ≤ 32 := by
  obtain ⟨handle, hparse⟩ := Option.isSome_iff_exists.mp
    (show (NsMsg.initparse (octetsOf rootResponse) 32).isSome by decide +kernel)
  exact ⟨handle, hparse, readEntries_of_initparse hparse .root [(.an, 0), (.qd, 0), (.an, 0)]⟩

end Sharpvpn
