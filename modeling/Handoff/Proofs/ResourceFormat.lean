import Handoff.Proofs.Tables

namespace Handoff

open Lookup

def Directory.header (d : Directory) : ResourceHeader :=
  ⟨d.fileSize, .ofNat d.textures.length, .ofNat d.meshes.length⟩

section Strays

variable {n : Nat} {ms : List Mesh}

/-- A texture id that names a texture, but none of the first `n`. -/
def IsStray (n : Nat) (id : UInt32) : Prop := id ≠ noTexture ∧ n ≤ id.toNat

def StraysAt (n : Nat) (ms : List Mesh) (j : Nat) (id : UInt32) : Prop :=
  (∃ m, ms[j]? = some m ∧ m.textureId = id) ∧ IsStray n id

theorem StraysAt.unique {j : Nat} {id id' : UInt32} (h : StraysAt n ms j id)
    (h' : StraysAt n ms j id') : id = id' := by
  obtain ⟨⟨m, hm, rfl⟩, _⟩ := h
  obtain ⟨⟨m', hm', rfl⟩, _⟩ := h'
  rw [Option.some.inj (hm.symm.trans hm')]

/-- Of the meshes with a stray texture id, `j` is the first. -/
def First (strays : Nat → UInt32 → Prop) (j : Nat) (id : UInt32) : Prop :=
  strays j id ∧ ∀ k < j, ∀ id', ¬ strays k id'

theorem First.unique {j j' : Nat} {id id' : UInt32} (h : First (StraysAt n ms) j id)
    (h' : First (StraysAt n ms) j' id') : (j, id) = (j', id') := by
  rcases Nat.lt_trichotomy j j' with hlt | rfl | hlt
  · exact absurd h.1 (h'.2 j hlt id)
  · rw [h.1.unique h'.1]
  · exact absurd h'.1 (h.2 j' hlt id')

namespace Directory

def stray? (n : Nat) : Mesh × Nat → Option (Nat × UInt32)
  | (m, j) => m.texture?.bind fun id => if id.toNat < n then none else some (j, id)

theorem strayTexture?_eq : strayTexture? n ms = ms.zipIdx.findSome? (stray? n) := rfl

theorem stray?_eq_some_iff {m : Mesh} {j j' : Nat} {id : UInt32} :
    stray? n (m, j) = some (j', id) ↔ j' = j ∧ m.textureId = id ∧ IsStray n id := by
  simp only [stray?, Mesh.texture?, IsStray]
  by_cases ht : m.textureId = noTexture
  · rw [if_pos ht]
    constructor
    · nofun
    · rintro ⟨_, rfl, hid, _⟩
      exact absurd ht hid
  · rw [if_neg ht, Option.bind_some]
    by_cases hn : m.textureId.toNat < n
    · rw [if_pos hn]
      constructor
      · nofun
      · rintro ⟨_, rfl, _, hid⟩
        omega
    · rw [if_neg hn]
      constructor
      · rintro h
        cases h
        exact ⟨rfl, rfl, ht, Nat.le_of_not_lt hn⟩
      · rintro ⟨rfl, rfl, _⟩
        rfl

theorem not_straysAt_of_stray? {j : Nat} (h : ∀ m, ms[j]? = some m → stray? n (m, j) = none)
    (id : UInt32) : ¬ StraysAt n ms j id := by
  rintro ⟨⟨m, hm, hid⟩, hs⟩
  have hf := h m hm
  rw [stray?_eq_some_iff.2 ⟨rfl, hid, hs⟩] at hf
  cases hf

theorem first_of_strayTexture? {j : Nat} {id : UInt32}
    (h : strayTexture? n ms = some (j, id)) : First (StraysAt n ms) j id := by
  rw [strayTexture?_eq] at h
  obtain ⟨before, ⟨m, i⟩, after, split, found, earlier⟩ := List.findSome?_eq_some_iff.1 h
  obtain ⟨rfl, hid, hs⟩ := stray?_eq_some_iff.1 found
  have entry (k : Nat) : (before ++ (m, j) :: after)[k]? = ms[k]?.map fun a => (a, k) := by
    rw [← split, List.getElem?_zipIdx, Nat.zero_add]
  have here := entry before.length
  rw [List.getElem?_append_right Nat.le.refl, Nat.sub_self, List.getElem?_cons_zero] at here
  obtain ⟨m', hm, hj⟩ := Option.map_eq_some_iff.1 here.symm
  cases hj
  refine ⟨⟨⟨m, hm, hid⟩, hs⟩, fun k hk => not_straysAt_of_stray? fun a ha => ?_⟩
  have there := entry k
  rw [List.getElem?_append_left hk, ha] at there
  exact earlier _ (List.mem_of_getElem? there)

theorem not_straysAt_of_strayTexture? (h : strayTexture? n ms = none) (j : Nat) (id : UInt32) :
    ¬ StraysAt n ms j id := by
  rw [strayTexture?_eq, List.findSome?_eq_none_iff] at h
  refine not_straysAt_of_stray? (fun m hm => h _ (List.mem_of_getElem? (i := j) ?_)) id
  rw [List.getElem?_zipIdx, hm, Nat.zero_add]
  rfl

theorem strayTexture?_eq_some_iff {j : Nat} {id : UInt32} :
    strayTexture? n ms = some (j, id) ↔ First (StraysAt n ms) j id := by
  constructor
  · exact first_of_strayTexture?
  · intro h
    cases hs : strayTexture? n ms with
    | none => exact absurd h.1 (not_straysAt_of_strayTexture? hs j id)
    | some r =>
      obtain ⟨i, id'⟩ := r
      rw [(first_of_strayTexture? hs).unique h]

theorem strayTexture?_eq_none_iff :
    strayTexture? n ms = none ↔ ∀ j id, ¬ StraysAt n ms j id := by
  constructor
  · exact not_straysAt_of_strayTexture?
  · intro h
    cases hs : strayTexture? n ms with
    | none => rfl
    | some r => exact absurd (first_of_strayTexture? hs).1 (h r.1 r.2)

end Directory

end Strays

structure HasTables (b : List UInt8) (h : ResourceHeader) (textures : List Texture)
    (meshes : List Mesh) : Prop where
  header : headerAt? b 0 = some h
  fits : tablesEnd h ≤ b.length
  textures : (textureTable h).Holds b textures
  meshes : (meshTable h).Holds b meshes

/-- With both tables in place only a stray texture can be wrong. -/
def checked (h : ResourceHeader) (textures : List Texture) (meshes : List Mesh) :
    Except ResourceError Directory :=
  match Directory.strayTexture? h.numTextures.toNat meshes with
  | some (mesh, id) => .error (.textureOutOfRange mesh id)
  | none => .ok ⟨h.fileSize, textures, meshes⟩

theorem tablesEnd_lt (h : ResourceHeader) : tablesEnd h < UInt64.size := by
  have ht := h.numTextures.toNat_lt
  have hm := h.numMeshes.toNat_lt
  unfold tablesEnd UInt64.size
  omega

namespace HasTables

variable {b : List UInt8} {h : ResourceHeader} {textures : List Texture} {meshes : List Mesh}

theorem long (hb : HasTables b h textures meshes) : 12 ≤ b.length := by
  have fits := hb.fits
  unfold tablesEnd at fits
  omega

theorem append (hb : HasTables b h textures meshes) (extra : List UInt8) :
    HasTables (b ++ extra) h textures meshes where
  header := ByteReader.header_readsAt.stays b 0 h extra hb.header
  fits := by
    have := hb.fits
    rw [List.length_append]
    omega
  textures := hb.textures.append ByteReader.texture_readsAt extra
  meshes := hb.meshes.append ByteReader.mesh_readsAt extra

theorem unique {h' : ResourceHeader} {textures' : List Texture} {meshes' : List Mesh}
    (hb : HasTables b h textures meshes) (hb' : HasTables b h' textures' meshes') :
    h = h' ∧ textures = textures' ∧ meshes = meshes' := by
  cases Option.some.inj (hb.header.symm.trans hb'.header)
  exact ⟨rfl, hb.textures.unique hb'.textures, hb.meshes.unique hb'.meshes⟩

theorem readsTextures (hb : HasTables b h textures meshes) :
    (textureTable h).Reads b textures := by
  refine hb.textures.reads (Nat.lt_of_le_of_lt ?_ (tablesEnd_lt h))
  exact Nat.le_add_right _ _

theorem readsMeshes (hb : HasTables b h textures meshes) : (meshTable h).Reads b meshes :=
  hb.meshes.reads (tablesEnd_lt h)

end HasTables

theorem tables_cases {b : List UInt8} {h : ResourceHeader} (long : 12 ≤ b.length)
    (hh : headerAt? b 0 = some h) :
    (b.length < tablesEnd h ∧ ByteReader.tables h (b.drop 12) = none) ∨
    ∃ textures meshes rest, HasTables b h textures meshes ∧
      ByteReader.tables h (b.drop 12) = some ((textures, meshes), rest) := by
  by_cases ht : 12 + h.numTextures.toNat * 12 ≤ b.length
  · obtain ⟨textures, run, lt, et⟩ := ByteReader.texture_readsAt.many b ht
    by_cases hm : tablesEnd h ≤ b.length
    · obtain ⟨meshes, run', lm, em⟩ := ByteReader.mesh_readsAt.many b hm
      refine .inr ⟨textures, meshes, b.drop (tablesEnd h), ⟨hh, hm, ⟨lt, et⟩, ⟨lm, em⟩⟩, ?_⟩
      simp only [ByteReader.tables, run, run', Option.bind_eq_bind, Option.bind_some,
        Option.pure_def]
      rfl
    · have none' := ByteReader.mesh_readsAt.many_eq_none b ht (Nat.lt_of_not_le hm)
      refine .inl ⟨Nat.lt_of_not_le hm, ?_⟩
      simp only [ByteReader.tables, run, none', Option.bind_eq_bind, Option.bind_some,
        Option.bind_none]
  · have none' := ByteReader.texture_readsAt.many_eq_none b long (Nat.lt_of_not_le ht)
    refine .inl ⟨Nat.lt_add_right _ (Nat.lt_of_not_le ht), ?_⟩
    simp only [ByteReader.tables, none', Option.bind_eq_bind, Option.bind_none]

theorem parse_of_read {b rest rest' : List UInt8} {h : ResourceHeader} {textures : List Texture}
    {meshes : List Mesh} (front : ByteReader.header b = some (h, rest))
    (tables : ByteReader.tables h rest = some ((textures, meshes), rest'))
    (length : textures.length = h.numTextures.toNat) :
    Directory.parse b = checked h textures meshes := by
  simp only [Directory.parse, front, tables, length]
  rfl

/-- A byte string is too short for a header, too short for its tables, or has both tables. -/
theorem parse_cases (b : List UInt8) :
    (b.length < 12 ∧ Directory.parse b = .error .truncatedHeader) ∨
    ∃ h, 12 ≤ b.length ∧ headerAt? b 0 = some h ∧
      (b.length < tablesEnd h ∧ Directory.parse b = .error .truncatedTable ∨
      ∃ textures meshes, HasTables b h textures meshes ∧
        Directory.parse b = checked h textures meshes) := by
  have hr := ByteReader.header_readsAt
  have run : ByteReader.header b = _ := hr.run b 0
  rcases hr.lt_or_eq (Nat.zero_le b.length) with ⟨h, hh⟩ | ⟨hh, short⟩
  · have long : 0 + 12 ≤ b.length := (hr.exists_iff b 0 (Nat.zero_le _)).1 ⟨h, hh⟩
    rw [hh] at run
    refine .inr ⟨h, long, hh, ?_⟩
    rcases tables_cases long hh with ⟨short, none'⟩ | ⟨textures, meshes, rest, hb, run'⟩
    · refine .inl ⟨short, ?_⟩
      simp only [Directory.parse, run, Option.map_some, Nat.zero_add, none']
    · exact .inr ⟨textures, meshes, hb, parse_of_read run run' hb.textures.length⟩
  · rw [hh] at run
    exact .inl ⟨short, by rw [Directory.parse, run]; rfl⟩

theorem parse_of_hasTables {b : List UInt8} {h : ResourceHeader} {textures : List Texture}
    {meshes : List Mesh} (hb : HasTables b h textures meshes) :
    Directory.parse b = checked h textures meshes := by
  have fits := hb.fits
  rcases parse_cases b with ⟨short, _⟩ | ⟨h', _, hh, ⟨short, _⟩ | ⟨_, _, hb', parsed⟩⟩
  · have := hb.long
    omega
  · cases Option.some.inj (hb.header.symm.trans hh)
    omega
  · obtain ⟨rfl, rfl, rfl⟩ := hb.unique hb'
    exact parsed

theorem checked_cases (h : ResourceHeader) (textures : List Texture) (meshes : List Mesh) :
    (∃ j id, First (StraysAt h.numTextures.toNat meshes) j id ∧
      checked h textures meshes = .error (.textureOutOfRange j id)) ∨
    ((∀ j id, ¬ StraysAt h.numTextures.toNat meshes j id) ∧
      checked h textures meshes = .ok ⟨h.fileSize, textures, meshes⟩) := by
  cases hs : Directory.strayTexture? h.numTextures.toNat meshes with
  | none => exact .inr ⟨Directory.strayTexture?_eq_none_iff.1 hs, by rw [checked, hs]⟩
  | some r =>
    obtain ⟨j, id⟩ := r
    exact .inl ⟨j, id, Directory.strayTexture?_eq_some_iff.1 hs, by rw [checked, hs]⟩

/-- Mesh `j`, read where it lies, names a texture that the file does not have. -/
def Stray (b : List UInt8) (h : ResourceHeader) (j : Nat) (id : UInt32) : Prop :=
  j < h.numMeshes.toNat ∧
    (∃ m, meshAt? b (12 + h.numTextures.toNat * 12 + j * 16) = some m ∧ m.textureId = id) ∧
    IsStray h.numTextures.toNat id

theorem HasTables.straysAt_eq {b : List UInt8} {h : ResourceHeader} {textures : List Texture}
    {meshes : List Mesh} (hb : HasTables b h textures meshes) :
    StraysAt h.numTextures.toNat meshes = Stray b h := by
  funext j id
  apply propext
  constructor
  · rintro ⟨⟨m, hm, hid⟩, hs⟩
    have hj : j < h.numMeshes.toNat := by
      obtain ⟨hj, _⟩ := List.getElem?_eq_some_iff.1 hm
      exact hb.meshes.length ▸ hj
    exact ⟨hj, ⟨m, (hb.meshes.entry j hj).symm.trans hm, hid⟩, hs⟩
  · rintro ⟨hj, ⟨m, hm, hid⟩, hs⟩
    exact ⟨⟨m, (hb.meshes.entry j hj).trans hm, hid⟩, hs⟩

structure ReadsAs (b : List UInt8) (h : ResourceHeader) (d : Directory) : Prop where
  header : headerAt? b 0 = some h ∧ d.header = h
  textures : (textureTable h).Reads b d.textures
  meshes : (meshTable h).Reads b d.meshes

/-- What becomes of a byte string that begins with this header. -/
structure Outcomes (b : List UInt8) (h : ResourceHeader) : Prop where
  countable : tablesEnd h < UInt64.size
  truncated : Directory.parse b = .error .truncatedTable ↔ b.length < tablesEnd h
  refused : ∀ j id, Directory.parse b = .error (.textureOutOfRange j id) ↔
    tablesEnd h ≤ b.length ∧ First (Stray b h) j id
  accepted : (∃ d, Directory.parse b = .ok d) ↔
    tablesEnd h ≤ b.length ∧ ∀ j id, ¬ Stray b h j id
  reads : ∀ d, Directory.parse b = .ok d → ReadsAs b h d
  stays : ∀ d, Directory.parse b = .ok d → ∀ extra,
    Directory.parse (b ++ extra) = .ok d ∧ ReadsAs (b ++ extra) h d

/-- The parser takes exactly its format: no read is a fault, and the first thing wrong decides. -/
structure ExactParse (b : List UInt8) : Prop where
  safe : parse? b = some ((Directory.parse b).map Directory.header)
  truncated : Directory.parse b = .error .truncatedHeader ↔ b.length < 12
  decided : 12 ≤ b.length → ∃ h, headerAt? b 0 = some h ∧ Outcomes b h

theorem Outcomes.of_short {b : List UInt8} {h : ResourceHeader} (short : b.length < tablesEnd h)
    (parsed : Directory.parse b = .error .truncatedTable) : Outcomes b h where
  countable := tablesEnd_lt h
  truncated := ⟨fun _ => short, fun _ => parsed⟩
  refused _ _ := by
    rw [parsed]
    exact ⟨nofun, fun ⟨fits, _⟩ => absurd short (Nat.not_lt_of_le fits)⟩
  accepted := by
    rw [parsed]
    exact ⟨nofun, fun ⟨fits, _⟩ => absurd short (Nat.not_lt_of_le fits)⟩
  reads _ hd := nomatch parsed.symm.trans hd
  stays _ hd := nomatch parsed.symm.trans hd

namespace HasTables

variable {b : List UInt8} {h : ResourceHeader} {textures : List Texture} {meshes : List Mesh}

theorem readsAs (hb : HasTables b h textures meshes) :
    ReadsAs b h ⟨h.fileSize, textures, meshes⟩ where
  header := by
    refine ⟨hb.header, ?_⟩
    rw [Directory.header, hb.textures.length, hb.meshes.length, UInt32.ofNat_toNat,
      UInt32.ofNat_toNat]
    rfl
  textures := hb.readsTextures
  meshes := hb.readsMeshes

theorem outcomes_of_first (hb : HasTables b h textures meshes) {j : Nat} {id : UInt32}
    (first : First (Stray b h) j id)
    (parsed : Directory.parse b = .error (.textureOutOfRange j id)) : Outcomes b h where
  countable := tablesEnd_lt h
  truncated := by
    rw [parsed]
    exact ⟨nofun, fun short => absurd hb.fits (Nat.not_le_of_lt short)⟩
  refused j' id' := by
    rw [parsed]
    constructor
    · intro same
      cases same
      exact ⟨hb.fits, first⟩
    · rintro ⟨_, first'⟩
      rw [← hb.straysAt_eq] at first first'
      cases first.unique first'
      rfl
  accepted := by
    rw [parsed]
    exact ⟨nofun, fun ⟨_, known⟩ => absurd first.1 (known j id)⟩
  reads _ hd := nomatch parsed.symm.trans hd
  stays _ hd := nomatch parsed.symm.trans hd

theorem outcomes_of_known (hb : HasTables b h textures meshes)
    (known : ∀ j id, ¬ Stray b h j id)
    (parsed : Directory.parse b = .ok ⟨h.fileSize, textures, meshes⟩) : Outcomes b h where
  countable := tablesEnd_lt h
  truncated := by
    rw [parsed]
    exact ⟨nofun, fun short => absurd hb.fits (Nat.not_le_of_lt short)⟩
  refused j id := by
    rw [parsed]
    exact ⟨nofun, fun ⟨_, first⟩ => absurd first.1 (known j id)⟩
  accepted := ⟨fun _ => ⟨hb.fits, known⟩, fun _ => ⟨_, parsed⟩⟩
  reads d hd := by
    cases parsed.symm.trans hd
    exact hb.readsAs
  stays d hd extra := by
    cases parsed.symm.trans hd
    -- the longer file has the same tables, and the answer depends on nothing else
    have hb' := hb.append extra
    refine ⟨?_, hb'.readsAs⟩
    rw [parse_of_hasTables hb', ← parse_of_hasTables hb, parsed]

theorem outcomes (hb : HasTables b h textures meshes) : Outcomes b h := by
  have parsed := parse_of_hasTables hb
  rcases checked_cases h textures meshes with ⟨j, id, first, answer⟩ | ⟨known, answer⟩
  · rw [hb.straysAt_eq] at first
    exact hb.outcomes_of_first first (parsed.trans answer)
  · simp only [hb.straysAt_eq] at known
    exact hb.outcomes_of_known known (parsed.trans answer)

theorem parse?_eq (hb : HasTables b h textures meshes) :
    parse? b = some ((checked h textures meshes).map Directory.header) := by
  have header : (⟨h.fileSize, textures, meshes⟩ : Directory).header = h := hb.readsAs.header.2
  rw [parse?, if_neg (Nat.not_lt_of_le hb.long), hb.header]
  change (if tablesEnd h < UInt64.size ∧ tablesEnd h ≤ b.length then _ else _) = _
  rw [if_pos ⟨tablesEnd_lt h, hb.fits⟩, hb.readsMeshes.all, checked]
  change (match Directory.strayTexture? h.numTextures.toNat meshes with
    | some (mesh, id) => _ | none => _) = _
  cases Directory.strayTexture? h.numTextures.toNat meshes with
  | none => exact congrArg (fun h => some (Except.ok h)) header.symm
  | some r => rfl

end HasTables

/-- For every byte string the parser gives the answer that the format asks for. -/
theorem parse_exact (b : List UInt8) : ExactParse b := by
  rcases parse_cases b with ⟨short, parsed⟩ | ⟨h, long, hh, ⟨short, parsed⟩ | ⟨ts, ms, hb, parsed⟩⟩
  · refine ⟨?_, ⟨fun _ => short, fun _ => parsed⟩, fun long => absurd short (Nat.not_lt.2 long)⟩
    rw [parse?, if_pos short, parsed]
    rfl
  · have hl : ¬ b.length < 12 := Nat.not_lt_of_le long
    refine ⟨?_, ⟨fun hd => (nomatch parsed.symm.trans hd), fun hs => absurd hs hl⟩,
      fun _ => ⟨h, hh, .of_short short parsed⟩⟩
    rw [parse?, if_neg hl, hh, parsed]
    exact if_neg fun ⟨_, fits⟩ => absurd short (Nat.not_lt_of_le fits)
  · have hl : ¬ b.length < 12 := Nat.not_lt_of_le long
    have outcomes := hb.outcomes
    refine ⟨by rw [hb.parse?_eq, parsed], ⟨fun hd => ?_, fun hs => absurd hs hl⟩,
      fun _ => ⟨h, hh, outcomes⟩⟩
    rcases checked_cases h ts ms with ⟨j, id, _, answer⟩ | ⟨_, answer⟩
    · exact nomatch (parsed.trans answer).symm.trans hd
    · exact nomatch (parsed.trans answer).symm.trans hd

end Handoff
