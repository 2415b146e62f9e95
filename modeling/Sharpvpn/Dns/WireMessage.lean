import Sharpvpn.Dns.NsParser

/-!
# What the parser accepts

A message is a header and four sections of entries. The parser accepts exactly the messages
that are made up so, and delimits their sections.
-/

namespace Sharpvpn

open Foundation.Layout

/-- A word in network order. -/
def put16 (word : UInt16) : Bytes := [UInt8.ofNat (word.toNat / 256), UInt8.ofNat word.toNat]

def put32 (word : UInt32) : Bytes :=
  put16 (UInt16.ofNat (word.toNat / 65536)) ++ put16 (UInt16.ofNat word.toNat)

/-- The bytes of a bit string whose length is written as `count`. -/
def bitBytes (count : UInt8) : Nat := ((if count = 0 then 256 else count.toNat) + 7) / 8

/-- A label of a name: text, or a bit string. -/
inductive WireLabel
  | text (bytes : Bytes) (pos : 0 < bytes.length) (length_lt : bytes.length < 64)
  | bits (count : UInt8) (bytes : Bytes) (length_eq : bytes.length = bitBytes count)

def WireLabel.bytes : WireLabel → Bytes
  | .text bytes _ _ => UInt8.ofNat bytes.length :: bytes
  | .bits count bytes _ => 0x41 :: count :: bytes

/-- A name ends with the root, or goes on elsewhere. -/
inductive NameEnd
  | root
  | pointer (high low : UInt8) (indirect : high &&& 0xc0 = 0xc0)

def NameEnd.bytes : NameEnd → Bytes
  | .root => [0]
  | .pointer high low _ => [high, low]

structure WireName where
  labels : List WireLabel
  nameEnd : NameEnd

def WireName.bytes (name : WireName) : Bytes :=
  name.labels.flatMap WireLabel.bytes ++ name.nameEnd.bytes

structure QuestionFields where
  type : UInt16
  rrClass : UInt16

structure RecordFields extends QuestionFields where
  ttl : UInt32
  rdata : Bytes
  length_lt : rdata.length < 65536

def QuestionFields.bytes (fields : QuestionFields) : Bytes :=
  put16 fields.type ++ put16 fields.rrClass

def RecordFields.bytes (fields : RecordFields) : Bytes :=
  fields.toQuestionFields.bytes ++ put32 fields.ttl ++
    put16 (UInt16.ofNat fields.rdata.length) ++ fields.rdata

namespace NsSect

/-- What follows the name in an entry. -/
abbrev Fields : NsSect → Type
  | .qd => QuestionFields
  | .an | .ns | .ar => RecordFields

def fieldsBytes : (sect : NsSect) → sect.Fields → Bytes
  | .qd => QuestionFields.bytes
  | .an | .ns | .ar => RecordFields.bytes

abbrev Entry (sect : NsSect) : Type := WireName × sect.Fields

def bytes (sect : NsSect) : sect.Entry → Bytes := pairLayout WireName.bytes sect.fieldsBytes

end NsSect

structure DnsMessage where
  id : UInt16
  flags : UInt16
  entries : (sect : NsSect) → List sect.Entry
  length_lt : ∀ sect, (entries sect).length < 65536

/-- Some sections, one behind the other. -/
def sectionBytes (entries : (sect : NsSect) → List sect.Entry) (sects : List NsSect) : Bytes :=
  sects.flatMap fun sect => (entries sect).flatMap sect.bytes

namespace DnsMessage

variable (message : DnsMessage)

def count (sect : NsSect) : UInt16 := UInt16.ofNat (message.entries sect).length

def header : Bytes :=
  put16 message.id ++ put16 message.flags ++
    NsSect.all.flatMap fun sect => put16 (message.count sect)

def bytes : Bytes := message.header ++ sectionBytes message.entries NsSect.all

/-- Where a section begins. -/
def offset (sect : NsSect) : Nat :=
  12 + (sectionBytes message.entries (NsSect.all.takeWhile (· ≠ sect))).length

/-- What the parser makes of the message. -/
def handle : NsMsg where
  eom := message.bytes.length
  id := message.id
  flags := message.flags
  counts := message.count
  sections sect := if (message.entries sect).isEmpty then none else some (message.offset sect)
  sect := none
  rrnum := -1
  msgPtr := none

end DnsMessage

variable {mem : Octets} {eom : Nat}

section Words

@[simp] theorem length_put16 (word : UInt16) : (put16 word).length = 2 := rfl

@[simp] theorem length_put32 (word : UInt32) : (put32 word).length = 4 := rfl

theorem standsAt_put16 {pos : Nat} {word : UInt16} :
    StandsAt mem pos (put16 word) ↔ nsGet16 mem pos = word := by
  have hhigh := (mem pos).toNat_lt
  have hlow := (mem (pos + 1)).toNat_lt
  have hword := word.toNat_lt
  unfold put16 nsGet16
  rw [standsAt_cons, standsAt_cons, ← UInt8.toNat_inj, ← UInt8.toNat_inj, ← UInt16.toNat_inj]
  simp only [standsAt_nil, and_true, UInt8.toNat_ofNat', UInt16.toNat_ofNat']
  omega

theorem standsAt_put32 {pos : Nat} {word : UInt32} :
    StandsAt mem pos (put32 word) ↔ nsGet32 mem pos = word := by
  have hhigh := (nsGet16 mem pos).toNat_lt
  have hlow := (nsGet16 mem (pos + 2)).toNat_lt
  have hword := word.toNat_lt
  unfold put32 nsGet32
  rw [standsAt_append, standsAt_put16, standsAt_put16, length_put16, ← UInt16.toNat_inj,
    ← UInt16.toNat_inj, ← UInt32.toNat_inj]
  simp only [UInt16.toNat_ofNat', UInt32.toNat_ofNat']
  omega

end Words

section Names

theorem length_label_pos (label : WireLabel) : 0 < label.bytes.length := by
  cases label <;> simp [WireLabel.bytes]

/-- The length byte of a text label has neither flag set. -/
theorem flags_of_lt : ∀ length : Nat, length < 64 → 0 < length →
    UInt8.ofNat length ≠ 0 ∧ UInt8.ofNat length &&& 0xc0 = 0 ∧
      (UInt8.ofNat length).toNat = length := by
  decide +kernel

theorem lt_of_flags {first : UInt8} (hne : first ≠ 0) (hflags : first &&& 0xc0 = 0) :
    0 < first.toNat ∧ first.toNat < 64 := by
  have hall : ∀ value : Nat, value < 256 → UInt8.ofNat value ≠ 0 →
      UInt8.ofNat value &&& 0xc0 = 0 → 0 < value ∧ value < 64 := by
    decide +kernel
  have hlt := hall first.toNat first.toNat_lt
  rw [UInt8.ofNat_toNat] at hlt
  exact hlt hne hflags

def WireName.cons (label : WireLabel) (name : WireName) : WireName :=
  ⟨label :: name.labels, name.nameEnd⟩

theorem WireName.bytes_cons (label : WireLabel) (name : WireName) :
    (name.cons label).bytes = label.bytes ++ name.bytes := by
  unfold WireName.bytes WireName.cons
  rw [List.flatMap_cons, List.append_assoc]

/-- The parser moves over a label. -/
theorem localNsNameSkip_label {pos : Nat} {label : WireLabel}
    (hstands : StandsAt mem pos label.bytes) (hlt : pos < eom) :
    localNsNameSkip mem eom pos = localNsNameSkip mem eom (pos + label.bytes.length) := by
  cases label with
  | text bytes hpos hlength =>
      obtain ⟨hfirst, -⟩ := standsAt_cons.mp hstands
      obtain ⟨hzero, hflags, htoNat⟩ := flags_of_lt _ hlength hpos
      rw [localNsNameSkip, if_pos hlt, hfirst, if_neg hzero, if_pos hflags, htoNat]
      unfold WireLabel.bytes
      rw [List.length_cons, Nat.add_assoc, Nat.add_comm 1]
  | bits count bytes hlength =>
      obtain ⟨hfirst, hrest⟩ := standsAt_cons.mp hstands
      obtain ⟨hcount, -⟩ := standsAt_cons.mp hrest
      have hlabellen : localNsLabellen mem pos = some (bitBytes count + 1) := by
        unfold localNsLabellen
        rw [hfirst, hcount, if_neg (by decide), if_pos (by decide), if_pos rfl]
        rfl
      rw [localNsNameSkip, if_pos hlt, hfirst, if_neg (by decide), if_neg (by decide),
        if_pos (by decide), hlabellen]
      unfold WireLabel.bytes
      dsimp only
      rw [List.length_cons, List.length_cons, hlength]
      congr 1
      omega

theorem localNsNameSkip_complete : Complete mem eom (localNsNameSkip mem eom) WireName.bytes := by
  rintro pos ⟨labels, nameEnd⟩ hstands hle
  induction labels generalizing pos with
  | nil =>
      cases nameEnd with
      | root =>
          have hlt : pos + 1 ≤ eom := hle
          obtain ⟨hfirst, -⟩ := standsAt_cons.mp hstands
          rw [localNsNameSkip, if_pos (by omega), if_pos hfirst]
          rfl
      | pointer high low hindirect =>
          have hlt : pos + 2 ≤ eom := hle
          obtain ⟨hfirst, -⟩ := standsAt_cons.mp hstands
          have hne : high ≠ 0 := by
            rintro rfl
            cases hindirect
          rw [localNsNameSkip, if_pos (by omega), hfirst, if_neg hne, hindirect,
            if_neg (by decide), if_neg (by decide), if_pos rfl, if_neg (by omega)]
          rfl
  | cons label labels ih =>
      have hsplit : WireName.bytes ⟨label :: labels, nameEnd⟩ =
          label.bytes ++ WireName.bytes ⟨labels, nameEnd⟩ :=
        WireName.bytes_cons label ⟨labels, nameEnd⟩
      have hpos := length_label_pos label
      rw [hsplit] at hstands hle ⊢
      rw [List.length_append] at hle ⊢
      obtain ⟨hlabel, hrest⟩ := standsAt_append.mp hstands
      rw [localNsNameSkip_label hlabel (by omega), ih _ hrest (by omega), Nat.add_assoc]

theorem exists_name_cons {pos next : Nat} (label : WireLabel)
    (hlabel : StandsAt mem pos label.bytes)
    (hname : ∃ name : WireName, StandsAt mem (pos + label.bytes.length) name.bytes ∧
      next = pos + label.bytes.length + name.bytes.length) :
    ∃ name : WireName, StandsAt mem pos name.bytes ∧ next = pos + name.bytes.length := by
  obtain ⟨name, hstands, rfl⟩ := hname
  refine ⟨name.cons label, ?_, ?_⟩
  · rw [WireName.bytes_cons]
    exact standsAt_append.mpr ⟨hlabel, hstands⟩
  · rw [WireName.bytes_cons, List.length_append, Nat.add_assoc]

/-- The only extended label that passes is a bit string. -/
theorem bits_of_labellen {pos l : Nat} (hextended : mem pos &&& 0xc0 = 0x40)
    (hlabellen : localNsLabellen mem pos = some l) :
    mem pos = 0x41 ∧ l = bitBytes (mem (pos + 1)) + 1 := by
  unfold localNsLabellen at hlabellen
  rw [hextended, if_neg (by decide), if_pos rfl] at hlabellen
  split at hlabellen
  next hbits => exact ⟨hbits, (Option.some.inj hlabellen).symm⟩
  next => cases hlabellen

/-- A name that ends before the message does is made up of labels and an end. -/
theorem localNsNameSkip_sound : Sound mem 1 eom (localNsNameSkip mem eom) WireName.bytes := by
  intro pos next hnext hle
  fun_induction localNsNameSkip mem eom pos with
  | case1 pos _ hzero =>
      obtain rfl := Option.some.inj hnext
      exact ⟨⟨[], .root⟩, standsAt_cons.mpr ⟨hzero, standsAt_nil⟩, rfl⟩
  | case2 pos _ hzero hflags ih =>
      obtain ⟨hpos, hlt⟩ := lt_of_flags hzero hflags
      obtain ⟨bytes, hlength, hbytes⟩ := exists_standsAt mem (pos + 1) (mem pos).toNat
      rw [← hlength] at hpos hlt
      have hfirst : UInt8.ofNat bytes.length = mem pos := by
        rw [hlength, UInt8.ofNat_toNat]
      have hend : pos + (WireLabel.text bytes hpos hlt).bytes.length =
          pos + 1 + (mem pos).toNat := by
        rw [← hlength, Nat.add_assoc, Nat.add_comm 1]
        rfl
      refine exists_name_cons (.text bytes hpos hlt) ?_ ?_
      · exact standsAt_cons.mpr ⟨hfirst.symm, hbytes⟩
      · rw [hend]
        exact ih hnext
  | case3 => cases hnext
  | case4 pos _ _ _ hextended l hlabellen ih =>
      obtain ⟨hfirst, rfl⟩ := bits_of_labellen hextended hlabellen
      obtain ⟨bytes, hlength, hbytes⟩ :=
        exists_standsAt mem (pos + 2) (bitBytes (mem (pos + 1)))
      have hend : pos + (WireLabel.bits (mem (pos + 1)) bytes hlength).bytes.length =
          pos + 1 + (bitBytes (mem (pos + 1)) + 1) := by
        rw [← hlength, Nat.add_assoc, Nat.add_comm 1]
        rfl
      refine exists_name_cons (.bits (mem (pos + 1)) bytes hlength) ?_ ?_
      · exact standsAt_cons.mpr ⟨hfirst, standsAt_cons.mpr ⟨rfl, hbytes⟩⟩
      · rw [hend]
        exact ih hnext
  | case5 => cases hnext
  | case6 pos _ hzero _ _ hindirect _ =>
      obtain rfl := Option.some.inj hnext
      refine ⟨⟨[], .pointer (mem pos) (mem (pos + 1)) hindirect⟩, ?_, rfl⟩
      exact standsAt_cons.mpr ⟨rfl, standsAt_cons.mpr ⟨rfl, standsAt_nil⟩⟩
  | case7 => cases hnext
  | case8 => cases hnext
  | case9 pos hge _ =>
      obtain rfl := Option.some.inj hnext
      omega

end Names

section Entries

theorem length_fields_pos (sect : NsSect) (fields : sect.Fields) :
    4 ≤ (sect.fieldsBytes fields).length := by
  cases sect with
  | qd => exact Nat.le_refl 4
  | an | ns | ar =>
      show 4 ≤ (RecordFields.bytes fields).length
      simp only [RecordFields.bytes, QuestionFields.bytes, List.length_append, length_put16]
      omega

/-- What the parser skips behind a name. -/
def skipFields (mem : Octets) (eom : Nat) (sect : NsSect) (behind : Nat) : Option Nat :=
  if sect = .qd then some (behind + 4)
  else if behind + 10 > eom then none
  else some (behind + 10 + (nsGet16 mem (behind + 8)).toNat)

theorem exists_questionFields (mem : Octets) (pos : Nat) :
    ∃ fields : QuestionFields, StandsAt mem pos fields.bytes :=
  ⟨⟨nsGet16 mem pos, nsGet16 mem (pos + 2)⟩,
    standsAt_append.mpr ⟨standsAt_put16.mpr rfl, standsAt_put16.mpr rfl⟩⟩

theorem length_recordFields (fields : RecordFields) :
    fields.bytes.length = 10 + fields.rdata.length := by
  simp only [RecordFields.bytes, QuestionFields.bytes, List.length_append, length_put16,
    length_put32]

theorem standsAt_recordFields {pos : Nat} {fields : RecordFields} :
    StandsAt mem pos fields.bytes ↔ StandsAt mem pos fields.toQuestionFields.bytes ∧
      nsGet32 mem (pos + 4) = fields.ttl ∧
      nsGet16 mem (pos + 8) = UInt16.ofNat fields.rdata.length ∧
      StandsAt mem (pos + 10) fields.rdata := by
  unfold RecordFields.bytes
  rw [standsAt_append, standsAt_append, standsAt_append, standsAt_put32, standsAt_put16]
  simp only [QuestionFields.bytes, List.length_append, length_put16, length_put32, and_assoc]

theorem exists_recordFields (mem : Octets) (pos : Nat) :
    ∃ fields : RecordFields, StandsAt mem pos fields.bytes ∧
      fields.rdata.length = (nsGet16 mem (pos + 8)).toNat := by
  obtain ⟨question, hquestion⟩ := exists_questionFields mem pos
  obtain ⟨rdata, hlength, hrdata⟩ := exists_standsAt mem (pos + 10) (nsGet16 mem (pos + 8)).toNat
  have hlt := (nsGet16 mem (pos + 8)).toNat_lt
  refine ⟨⟨question, nsGet32 mem (pos + 4), rdata, by omega⟩, ?_, hlength⟩
  refine standsAt_recordFields.mpr ⟨hquestion, rfl, ?_, hrdata⟩
  rw [hlength, UInt16.ofNat_toNat]

theorem skipFields_sound (sect : NsSect) :
    Sound mem 0 eom (skipFields mem eom sect) sect.fieldsBytes := by
  intro pos next hnext hle
  unfold skipFields at hnext
  cases sect with
  | qd =>
      obtain rfl := Option.some.inj hnext
      obtain ⟨fields, hfields⟩ := exists_questionFields mem pos
      exact ⟨fields, hfields, rfl⟩
  | an | ns | ar =>
      obtain ⟨fields, hfields, hlength⟩ := exists_recordFields mem pos
      rw [if_neg (by decide)] at hnext
      split at hnext
      next => cases hnext
      next =>
        obtain rfl := Option.some.inj hnext
        refine ⟨fields, hfields, ?_⟩
        rw [← hlength, Nat.add_assoc, ← length_recordFields]
        rfl

theorem skipFields_complete (sect : NsSect) :
    Complete mem eom (skipFields mem eom sect) sect.fieldsBytes := by
  intro pos fields hstands hle
  unfold skipFields
  cases sect with
  | qd => rfl
  | an | ns | ar =>
      have hlength := length_recordFields fields
      have hle' : pos + (RecordFields.bytes fields).length ≤ eom := hle
      obtain ⟨-, -, hrdlength, -⟩ := standsAt_recordFields.mp hstands
      have hlt := RecordFields.length_lt fields
      rw [if_neg (by decide), if_neg (by omega), hrdlength, UInt16.toNat_ofNat',
        Nat.mod_eq_of_lt hlt, Nat.add_assoc, ← hlength]
      rfl

theorem skipRr_sound (sect : NsSect) : Sound mem 0 eom (skipRr mem eom sect) sect.bytes :=
  localNsNameSkip_sound.pair (skipFields_sound sect) fun fields =>
    Nat.le_of_succ_le (Nat.le_of_succ_le (Nat.le_of_succ_le (length_fields_pos sect fields)))

theorem skipRr_complete (sect : NsSect) : Complete mem eom (skipRr mem eom sect) sect.bytes :=
  localNsNameSkip_complete.pair (skipFields_complete sect)

theorem localNsSkiprr_eq_some {sect : NsSect} {count ptr b : Nat}
    (hskip : localNsSkiprr mem eom sect count ptr = some b) :
    ∃ items : List sect.Entry, items.length = count ∧
      StandsAt mem ptr (items.flatMap sect.bytes) ∧ b = (items.flatMap sect.bytes).length ∧
      ptr + b ≤ eom := by
  unfold localNsSkiprr at hskip
  obtain ⟨next, hnext, hb⟩ := Option.bind_eq_some_iff.mp hskip
  split at hb
  next => cases hb
  next hle =>
    obtain ⟨items, hlength, hstands, rfl⟩ := (skipRr_sound sect).many hnext (by omega)
    obtain rfl := Option.some.inj hb
    exact ⟨items, hlength, hstands, by omega, by omega⟩

theorem localNsSkiprr_of_stands {sect : NsSect} {items : List sect.Entry} {ptr : Nat}
    (hstands : StandsAt mem ptr (items.flatMap sect.bytes))
    (hle : ptr + (items.flatMap sect.bytes).length ≤ eom) :
    localNsSkiprr mem eom sect items.length ptr = some (items.flatMap sect.bytes).length := by
  unfold localNsSkiprr
  rw [(skipRr_complete sect).many hstands hle, Option.bind_some, if_neg (by omega)]
  congr 1
  omega

end Entries

section Sections

/-- The pointers to the sections, from `msg` on. -/
def sectionPointers (entries : (sect : NsSect) → List sect.Entry) :
    List NsSect → (NsSect → Option Nat) → Nat → NsSect → Option Nat
  | [], sections, _ => sections
  | sect :: rest, sections, msg =>
      sectionPointers entries rest
        (Function.update sections sect (if (entries sect).isEmpty then none else some msg))
        (msg + ((entries sect).flatMap sect.bytes).length)

variable {counts : NsSect → UInt16} {sections parsed : NsSect → Option Nat} {sects : List NsSect}
  {entries : (sect : NsSect) → List sect.Entry} {msg last : Nat}

theorem sectionBytes_cons (sect : NsSect) :
    sectionBytes entries (sect :: sects) =
      (entries sect).flatMap sect.bytes ++ sectionBytes entries sects := rfl

theorem sectionPointers_cons (sect : NsSect) :
    sectionPointers entries (sect :: sects) sections msg =
      sectionPointers entries sects
        (Function.update sections sect (if (entries sect).isEmpty then none else some msg))
        (msg + ((entries sect).flatMap sect.bytes).length) := rfl

/-- The entries of other sections do not matter. -/
theorem sectionBytes_update {sect : NsSect} (hnot : sect ∉ sects) (items : List sect.Entry) :
    sectionBytes (Function.update entries sect items) sects = sectionBytes entries sects := by
  apply List.flatMap_congr
  intro other hother
  rw [Function.update_of_ne]
  rintro rfl
  exact hnot hother

theorem sectionPointers_update {sect : NsSect} (hnot : sect ∉ sects) (items : List sect.Entry) :
    sectionPointers (Function.update entries sect items) sects sections msg =
      sectionPointers entries sects sections msg := by
  induction sects generalizing sections msg with
  | nil => rfl
  | cons other rest ih =>
      have hne : other ≠ sect := fun heq => hnot (heq ▸ List.mem_cons_self)
      rw [sectionPointers_cons, sectionPointers_cons, Function.update_of_ne hne,
        ih fun hmem => hnot (List.mem_cons_of_mem _ hmem)]

theorem parseSections_sound (hnodup : sects.Nodup)
    (hparsed : parseSections mem eom counts sects sections msg = some (parsed, last))
    (hlast : last ≤ eom) :
    ∃ entries : (sect : NsSect) → List sect.Entry,
      (∀ sect ∈ sects, (entries sect).length = (counts sect).toNat) ∧
      StandsAt mem msg (sectionBytes entries sects) ∧
      last = msg + (sectionBytes entries sects).length ∧
      parsed = sectionPointers entries sects sections msg := by
  induction sects generalizing sections msg with
  | nil =>
      obtain ⟨rfl, rfl⟩ := Prod.mk.inj (Option.some.inj hparsed)
      exact ⟨fun _ => [], fun sect hsect => absurd hsect List.not_mem_nil, standsAt_nil, rfl, rfl⟩
  | cons sect rest ih =>
      obtain ⟨hnot, hrest⟩ := List.nodup_cons.mp hnodup
      obtain ⟨items, b, hlength, hstands, hb, hmore⟩ : ∃ (items : List sect.Entry) (b : Nat),
          items.length = (counts sect).toNat ∧ StandsAt mem msg (items.flatMap sect.bytes) ∧
          b = (items.flatMap sect.bytes).length ∧
          parseSections mem eom counts rest
            (Function.update sections sect (if items.isEmpty then none else some msg))
            (msg + b) = some (parsed, last) := by
        unfold parseSections at hparsed
        split at hparsed
        next hzero =>
          refine ⟨[], 0, ?_, standsAt_nil, rfl, hparsed⟩
          rw [hzero]
          rfl
        next hcount =>
          obtain ⟨b, hskip, hmore⟩ := Option.bind_eq_some_iff.mp hparsed
          obtain ⟨items, hlength, hstands, hb, -⟩ := localNsSkiprr_eq_some hskip
          refine ⟨items, b, hlength, hstands, hb, ?_⟩
          rw [if_neg, hmore]
          rw [List.isEmpty_iff]
          rintro rfl
          exact hcount (UInt16.toNat_inj.mp hlength.symm)
      subst hb
      obtain ⟨entries, hlengths, hbehind, rfl, rfl⟩ := ih hrest hmore
      refine ⟨Function.update entries sect items, fun other hother => ?_, ?_, ?_, ?_⟩
      · rcases List.mem_cons.mp hother with rfl | hlater
        · rw [Function.update_self, hlength]
        · have hne : other ≠ sect := fun heq => hnot (heq ▸ hlater)
          rw [Function.update_of_ne hne, hlengths other hlater]
      · rw [sectionBytes_cons, Function.update_self, sectionBytes_update hnot]
        exact standsAt_append.mpr ⟨hstands, hbehind⟩
      · rw [sectionBytes_cons, Function.update_self, sectionBytes_update hnot, List.length_append,
          Nat.add_assoc]
      · rw [sectionPointers_cons, Function.update_self, sectionPointers_update hnot]

theorem parseSections_complete (hlength : ∀ sect, (entries sect).length = (counts sect).toNat)
    (hstands : StandsAt mem msg (sectionBytes entries sects))
    (hle : msg + (sectionBytes entries sects).length ≤ eom) :
    parseSections mem eom counts sects sections msg =
      some (sectionPointers entries sects sections msg,
        msg + (sectionBytes entries sects).length) := by
  induction sects generalizing sections msg with
  | nil => rfl
  | cons sect rest ih =>
      rw [sectionBytes_cons] at hstands hle ⊢
      rw [List.length_append] at hle ⊢
      obtain ⟨hitems, hbehind⟩ := standsAt_append.mp hstands
      rw [sectionPointers_cons, ← Nat.add_assoc]
      unfold parseSections
      split
      next hzero =>
        have hempty : entries sect = [] := by
          apply List.eq_nil_of_length_eq_zero
          rw [hlength, hzero]
          rfl
        rw [hempty] at hbehind hle ⊢
        exact ih hbehind (by omega)
      next hcount =>
        have hne : ¬(entries sect).isEmpty = true := by
          rw [List.isEmpty_iff]
          intro hempty
          apply hcount
          apply UInt16.toNat_inj.mp
          rw [← hlength, hempty]
          rfl
        rw [← hlength, localNsSkiprr_of_stands hitems (by omega), Option.bind_some, if_neg hne]
        exact ih hbehind (by omega)

end Sections

namespace DnsMessage

theorem length_header (message : DnsMessage) : message.header.length = 12 := rfl

theorem length_bytes (message : DnsMessage) :
    message.bytes.length = 12 + (sectionBytes message.entries NsSect.all).length := by
  unfold bytes
  rw [List.length_append, length_header]

theorem standsAt_header {message : DnsMessage} :
    StandsAt mem 0 message.header ↔ nsGet16 mem 0 = message.id ∧ nsGet16 mem 2 = message.flags ∧
      NsMsg.readCounts mem = message.count := by
  have hcounts : NsMsg.readCounts mem = message.count ↔ nsGet16 mem 4 = message.count .qd ∧
      nsGet16 mem 6 = message.count .an ∧ nsGet16 mem 8 = message.count .ns ∧
      nsGet16 mem 10 = message.count .ar := by
    rw [funext_iff]
    constructor
    · exact fun heq => ⟨heq .qd, heq .an, heq .ns, heq .ar⟩
    · rintro ⟨hqd, han, hns, har⟩ sect
      cases sect <;> assumption
  rw [hcounts]
  unfold header NsSect.all
  simp only [List.flatMap_cons, List.flatMap_nil, standsAt_append, standsAt_put16, standsAt_nil,
    List.length_append, length_put16, and_true, and_assoc, Nat.zero_add, Nat.reduceAdd]

theorem toNat_count (message : DnsMessage) (sect : NsSect) :
    (message.count sect).toNat = (message.entries sect).length := by
  unfold count
  rw [UInt16.toNat_ofNat', Nat.mod_eq_of_lt (message.length_lt sect)]

/-- The loop over the sections points at the beginning of each that is not empty. -/
theorem sectionPointers_all (message : DnsMessage) :
    sectionPointers message.entries NsSect.all (fun _ => none) 12 = message.handle.sections := by
  funext sect
  cases sect <;>
    simp [sectionPointers, handle, offset, sectionBytes, NsSect.all, List.takeWhile,
      Function.update, Nat.add_assoc]

end DnsMessage

/-- The parser accepts exactly the messages that are made up of a header and entries, and
delimits their sections, whatever stands in memory behind the message. -/
theorem NsMsg.initparse_eq_some_iff {msglen : Nat} {handle : NsMsg} :
    NsMsg.initparse mem msglen = some handle ↔
      ∃ message : DnsMessage, StandsAt mem 0 message.bytes ∧ message.bytes.length = msglen ∧
        handle = message.handle := by
  unfold NsMsg.initparse
  constructor
  · intro hparse
    split at hparse
    next => cases hparse
    next hshort =>
      obtain ⟨⟨parsed, last⟩, hparsed, hhandle⟩ := Option.bind_eq_some_iff.mp hparse
      split at hhandle
      next hlast =>
        obtain ⟨entries, hlengths, hstands, hend, hpointers⟩ :=
          parseSections_sound (by decide) hparsed (Nat.le_of_eq hlast)
        have hall : ∀ sect, (entries sect).length = (NsMsg.readCounts mem sect).toNat :=
          fun sect => hlengths sect (by cases sect <;> decide)
        let message : DnsMessage := ⟨nsGet16 mem 0, nsGet16 mem 2, entries, fun sect => by
          rw [hall]
          exact UInt16.toNat_lt _⟩
        have hcount : NsMsg.readCounts mem = message.count := by
          funext sect
          apply UInt16.toNat_inj.mp
          rw [message.toNat_count, ← hall]
        have hlength : message.bytes.length = msglen := by
          rw [message.length_bytes, ← hlast, hend]
        refine ⟨message, ?_, hlength, ?_⟩
        · refine standsAt_append.mpr ⟨DnsMessage.standsAt_header.mpr ⟨rfl, rfl, hcount⟩, ?_⟩
          rw [message.length_header, Nat.zero_add]
          exact hstands
        · rw [← Option.some.inj hhandle, hcount, ← hlength, hpointers]
          unfold DnsMessage.handle
          congr 1
          exact message.sectionPointers_all
      next => cases hhandle
  · rintro ⟨message, hstands, rfl, rfl⟩
    obtain ⟨hheader, hbody⟩ := standsAt_append.mp hstands
    obtain ⟨hid, hflags, hcount⟩ := DnsMessage.standsAt_header.mp hheader
    rw [message.length_header, Nat.zero_add] at hbody
    have hlength := message.length_bytes
    rw [if_neg (by omega), hid, hflags, hcount, parseSections_complete
      (fun sect => (message.toNat_count sect).symm) hbody (Nat.le_of_eq hlength.symm),
      Option.bind_some, if_pos hlength.symm]
    congr 1
    unfold DnsMessage.handle
    congr 1
    exact message.sectionPointers_all

end Sharpvpn
