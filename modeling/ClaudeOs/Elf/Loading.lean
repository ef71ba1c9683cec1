import ClaudeOs.Fs.Contents
import ClaudeOs.Elf.Faithful

/-!
# Loads and faults while the file changes

Loads of one program file in memory, and faults of the programs that run from it, with writes and
truncations of the file in between.  The loader takes the file's lock for its header, for the table and
for each piece it copies; a fault takes it for its page.  The offsets they read at were checked against
the length the file had when the header was read.

* `Program`, `imageObject`  the file with the regions recorded on it, and the calls in sections;
* `Begins`, `Program.Begins`  the offsets a read may still begin at;
* `Spares`  what a change of the file leaves of it;
* `reads_in_range`  no read begins past the end of the file in a run that spares them;
* `load_panics`  a truncation in the middle of a load stops the machine.
-/

namespace ClaudeOs.Elf
open Mm Mem Linear Sections List

/-! ## the calls -/

structure Program where
  ino : Nat
  file : Fs.File.Contents
  regions : List FileMap

namespace Program

def node (s : Program) : Node := ⟨s.ino, s.file.data, false, fun _ _ => none⟩
def setFile (s : Program) (file : Fs.File.Contents) : Program := { s with file := file }

def record (s : Program) (regions : List FileMap) : Program :=
  { s with regions := s.regions ++ regions }

end Program

inductive ImageCall where
  | load (interp : Bool)
  | fault (region page : Nat)
  | mmap (offset length : Nat)
  | change (ch : Fs.File.Change)
  deriving DecidableEq

inductive ImagePhase where
  | start
  | head (h : Head)
  /-- the copies left to make -/
  | reading (L : Layout) (todo : List Piece)
  /-- the headers left to look at for an interpreter -/
  | naming (L : Layout) (todo : List ProgramHeader)
  /-- a fault has its plan -/
  | filling (offset want : Nat)
  | changing (step : Fs.File.Step)

inductive ImageAnswer where
  | loaded
  | refused (e : Refusal)
  | served (yes : Bool)
  | mapped
  | changed (res : Fs.File.FileAnswer)
  /-- an index past the end of the contents, which stops the machine -/
  | panicked
  deriving DecidableEq

/-- the memory a section finds: for the image, and for a file that grows -/
structure Supply where
  room : Bool
  available : Nat

def goOn (s : Program) : Except Refusal ImagePhase → Program × (ImagePhase ⊕ ImageAnswer)
  | .ok next => (s, .inl next)
  | .error .panicked => (s, .inr .panicked)
  | .error e => (s, .inr (.refused e))

/-- the last section of a load, after which the regions are recorded -/
def finish (s : Program) : Except Refusal (List Segment) → Program × (ImagePhase ⊕ ImageAnswer)
  | .ok segments => (s.record (segments.map (·.file)), .inr .loaded)
  | .error .panicked => (s, .inr .panicked)
  | .error e => (s, .inr (.refused e))

def baseOf (interp : Bool) : Option Nat := if interp then some INTERP_BASE else none

def granted (c : Supply) (next : ImagePhase) : Except Refusal ImagePhase :=
  if c.room then .ok next else .error .ENOMEM

def loadSection (machine : Nat) (s : Program) (c : Supply) (interp : Bool) :
    ImagePhase → Program × (ImagePhase ⊕ ImageAnswer)
  | .head h => goOn s do
    let phdrs ← h.table s.node
    let L ← Layout.of ⟨h, phdrs⟩ (baseOf interp)
    granted c (.reading L (copies L.loads))
  | .reading L (piece :: todo) => goOn s do
    let _ ← readInto s.node piece.off piece.len
    return .reading L todo
  | .reading L [] => goOn s do
    let _ ← phdrAddr L.headers L.base L.loads
    granted c (.naming L L.headers.phdrs)
  | .naming L (ph :: todo) => goOn s do
    let _ ← noteHeader s.node L.base L.headers.head.size none ph
    return .naming L todo
  | .naming L [] => finish s do
    let segments ← L.loads.mapM (Load.segment s.ino)
    let _ ← sum [L.base, L.headers.head.eEntry]
    return segments
  | _ => goOn s do
    let (bytes, size) ← headOf s.node
    let h ← Head.of machine bytes size
    return .head h

def faultSection (s : Program) (region page : Nat) : ImagePhase → Program × (ImagePhase ⊕ ImageAnswer)
  | .filling offset want =>
    match readInto s.node offset want with
    | .ok _ => (s, .inr (.served true))
    | .error .panicked => (s, .inr .panicked)
    | .error _ => (s, .inr (.served false))
  | _ =>
    match s.regions[region]? with
    | none => (s, .inr (.served false))
    | some file =>
      if page * PAGE_SIZE ≥ file.length then (s, .inr (.served true))
      else (s, .inl (.filling (file.offset + page * PAGE_SIZE)
        (min (file.length - page * PAGE_SIZE) PAGE_SIZE)))

def changeSection (s : Program) (c : Supply) (ch : Fs.File.Change) :
    ImagePhase → Program × (ImagePhase ⊕ ImageAnswer)
  | .changing step =>
    match s.file.change c.available ch step with
    | (file, .inl next) => (s.setFile file, .inl (.changing next))
    | (file, .inr res) => (s.setFile file, .inr (.changed res))
  -- a change begins at its first step
  | _ => (s, .inl (.changing .waiting))

def imageAdvance (machine : Nat) (s : Program) (c : Supply) :
    ImageCall → ImagePhase → Program × (ImagePhase ⊕ ImageAnswer)
  | .load interp, phase => loadSection machine s c interp phase
  | .fault region page, phase => faultSection s region page phase
  | .mmap offset length, _ => (s.record [⟨s.ino, offset, length⟩], .inr .mapped)
  | .change ch, phase => changeSection s c ch phase

def imageObject (machine : Nat) : Object Program ImageCall ImagePhase ImageAnswer Supply where
  begin op := match op with
    | .change _ => .changing .waiting
    | _ => .start
  advance := imageAdvance machine

abbrev ImageThreads := Threads Program ImageCall ImagePhase

/-! ## where a read may begin -/

def FileMap.Begins (f : FileMap) (off : Nat) : Prop :=
  ∃ page, page * PAGE_SIZE < f.length ∧ off = f.offset + page * PAGE_SIZE

/-- a path of an interpreter that is inside the file as it was -/
def NameBegins (size : Nat) (phdrs : List ProgramHeader) (off : Nat) : Prop :=
  ∃ ph ∈ phdrs, ph.pType = PT_INTERP ∧ ph.pOffset + ph.pFilesz ≤ size ∧ off = ph.pOffset

def RegionBegins (ino : Nat) (L : Layout) (off : Nat) : Prop :=
  ∃ l ∈ L.loads, FileMap.Begins (l.region ino).file off

def ImagePhase.Begins (ino : Nat) (off : Nat) : ImagePhase → Prop
  | .start => False
  | .head h => off ≤ h.size
  | .reading L todo => (∃ piece ∈ todo, off = piece.off) ∨
      NameBegins L.headers.head.size L.headers.phdrs off ∨ RegionBegins ino L off
  | .naming L todo => NameBegins L.headers.head.size todo off ∨ RegionBegins ino L off
  | .filling offset _ => off = offset
  | .changing _ => False

def Begins (w : ImageThreads) (off : Nat) : Prop :=
  (∃ f ∈ w.shared.regions, FileMap.Begins f off) ∨
    ∃ id op phase, w.calls id = .running op phase ∧ phase.Begins w.shared.ino off

/-- no write or truncation leaves the file shorter than where a read may still begin, and a mapped
part has its pages in the file -/
def Spares (w : ImageThreads) : Action ImageCall Supply → Prop
  | .call _ _ => True
  | .go id c =>
    (∀ ch step, w.calls id = .running (.change ch) (.changing step) → ∀ off, Begins w off →
      off ≤ (w.shared.file.change c.available ch step).1.data.length) ∧
    ∀ offset length phase, w.calls id = .running (.mmap offset length) phase →
      ∀ off, FileMap.Begins ⟨w.shared.ino, offset, length⟩ off → off ≤ w.shared.file.data.length

/-! ## what never stops the machine -/

structure Quiet {α : Type} (x : Except Refusal α) : Prop where
  out : x ≠ .error .panicked

section
variable {α β : Type}

lemma quiet_ok (a : α) : Quiet (.ok a) := ⟨fun h => by cases h⟩

lemma Quiet.bind {x : Except Refusal α} {f : α → Except Refusal β} (hx : Quiet x)
    (hf : ∀ a, x = .ok a → Quiet (f a)) : Quiet (x >>= f) := by
  cases x with
  | error e => exact ⟨fun h => hx.out (by cases h; rfl)⟩
  | ok a => exact hf a rfl

lemma quiet_ENOEXEC : Quiet (.error .ENOEXEC : Except Refusal α) := ⟨fun h => by cases h⟩

lemma quiet_ENOMEM : Quiet (.error .ENOMEM : Except Refusal α) := ⟨fun h => by cases h⟩

lemma quiet_foldlM {f : β → α → Except Refusal β} {xs : List α} (h : ∀ b, ∀ x ∈ xs, Quiet (f b x))
    (b : β) : Quiet (xs.foldlM f b) := by
  induction xs generalizing b with
  | nil => exact quiet_ok b
  | cons x xs ih =>
    rw [foldlM_cons]
    exact (h b x mem_cons_self).bind fun b' _ =>
      ih (fun b x hx => h b x (mem_cons_of_mem _ hx)) b'

lemma quiet_mapM {f : α → Except Refusal β} {xs : List α} (h : ∀ x ∈ xs, Quiet (f x)) :
    Quiet (xs.mapM f) := by
  induction xs with
  | nil => exact quiet_ok []
  | cons x xs ih =>
    rw [mapM_cons]
    refine (h x mem_cons_self).bind fun y _ => ?_
    exact (ih fun x hx => h x (mem_cons_of_mem _ hx)).bind fun ys _ => quiet_ok _

end

variable (data : List UInt8) (machine off : Nat)

lemma quiet_field (len : Nat) : Quiet (field data off len) := by
  unfold field
  split
  · exact quiet_ok _
  · exact quiet_ENOEXEC

lemma quiet_map {α β : Type} {x : Except Refusal α} (hx : Quiet x) (f : α → β) :
    Quiet (f <$> x) := by
  cases x with
  | error e => exact ⟨fun h => hx.out (by cases h; rfl)⟩
  | ok a => exact quiet_ok _

lemma quiet_rd16 : Quiet (rd16 data off) := quiet_map (quiet_field ..) _

lemma quiet_rd32 : Quiet (rd32 data off) := quiet_map (quiet_field ..) _

lemma quiet_rd64 : Quiet (rd64 data off) := quiet_map (quiet_field ..) _

lemma quiet_sum (values : List Nat) : Quiet (sum values) := by
  refine quiet_foldlM (fun total value _ => ?_) 0
  split
  · exact quiet_ok _
  · exact quiet_ENOEXEC

lemma quiet_parse (base : Nat) : Quiet (ProgramHeader.parse data base) := by
  refine (quiet_rd32 ..).bind fun _ _ => (quiet_rd32 ..).bind fun _ _ => ?_
  refine (quiet_rd64 ..).bind fun _ _ => (quiet_rd64 ..).bind fun _ _ => ?_
  refine (quiet_rd64 ..).bind fun _ _ => (quiet_rd64 ..).bind fun _ _ => ?_
  exact (quiet_rd64 ..).bind fun _ _ => quiet_ok _

lemma quiet_validate (head : List UInt8) : Quiet (validate machine head) := by
  unfold validate
  split
  · exact quiet_ENOEXEC
  split
  · exact quiet_ENOEXEC
  refine (quiet_rd16 ..).bind fun _ _ => (quiet_rd16 ..).bind fun _ _ => ?_
  split
  · exact quiet_ENOEXEC
  split
  · exact quiet_ENOEXEC
  · exact quiet_ok _

variable {node : Node} {off : Nat} {phase : ImagePhase} {s : Program} {c : Supply}
  {act : Action ImageCall Supply} {p : Progress ImageCall ImagePhase} {w : ImageThreads}

lemma quiet_headOf (h : node.stored = false) : Quiet (headOf node) := by
  unfold headOf
  rw [h]
  split
  · exact quiet_ENOEXEC
  · exact quiet_ok _

lemma quiet_of (head : List UInt8) (size : Nat) : Quiet (Head.of machine head size) := by
  refine (quiet_validate ..).bind fun _ _ => (quiet_rd64 ..).bind fun _ _ => ?_
  refine (quiet_rd64 ..).bind fun _ _ => (quiet_rd16 ..).bind fun _ _ => ?_
  refine (quiet_rd16 ..).bind fun _ _ => ?_
  split
  · exact quiet_ENOEXEC
  split
  · exact quiet_ENOEXEC
  refine (quiet_sum _).bind fun _ _ => ?_
  split
  · exact quiet_ENOEXEC
  · exact quiet_ok _

lemma quiet_table (h : Head) (hstored : node.stored = false) : Quiet (h.table node) := by
  unfold Head.table
  rw [hstored]
  exact quiet_mapM fun _ _ => quiet_parse ..

lemma quiet_extent (ph : ProgramHeader) (base size : Nat) : Quiet (Extent.of ph base size) := by
  unfold Extent.of
  split
  · exact quiet_ENOEXEC
  split
  · exact quiet_ENOEXEC
  refine (quiet_sum _).bind fun _ _ => ?_
  split
  · exact quiet_ENOEXEC
  refine (quiet_sum _).bind fun _ _ => (quiet_sum _).bind fun _ _ => ?_
  refine (quiet_map (quiet_sum _) _).bind fun _ _ => ?_
  split
  · exact quiet_ENOMEM
  · exact quiet_ok _

lemma quiet_collect (base size : Nat) (phdrs : List ProgramHeader) (index pages : Nat) :
    Quiet (collect base size index pages phdrs) := by
  induction phdrs generalizing index pages with
  | nil => exact quiet_ok _
  | cons ph phdrs ih =>
    unfold collect
    split
    · exact ih ..
    refine (quiet_extent ..).bind fun _ _ => ?_
    split
    · exact ih ..
    split
    · exact quiet_ENOMEM
    · exact (ih ..).bind fun _ _ => quiet_ok _

lemma quiet_layout (headers : Headers) (baseOverride : Option Nat) :
    Quiet (Layout.of headers baseOverride) := by
  refine (quiet_collect ..).bind fun _ _ => ?_
  split
  · exact quiet_ENOEXEC
  · exact quiet_ok _

lemma quiet_phdrAddr (h : Headers) (base : Nat) (loads : List Load) :
    Quiet (phdrAddr h base loads) := by
  have hentry : Quiet (phdrEntry base h.phdrs) := by
    refine quiet_foldlM (fun addr ph _ => ?_) 0
    split
    · exact quiet_sum _
    · exact quiet_ok _
  refine hentry.bind fun _ _ => ?_
  split
  · exact (quiet_sum _).bind fun _ _ => quiet_ok _
  · exact quiet_ok _

lemma quiet_readInto (h : off ≤ node.data.length) (len : Nat) : Quiet (readInto node off len) := by
  unfold readInto
  split
  · split
    · exact ⟨fun h => by cases h⟩
    · exact quiet_ok _
  · exact quiet_ok _

/-! ## one section -/

def ImagePhase.Sound : ImagePhase → Prop
  | .reading L _ => ∀ l ∈ L.loads, l.extent.intoPage ≤ l.extent.fileOffset
  | .naming L _ => ∀ l ∈ L.loads, l.extent.intoPage ≤ l.extent.fileOffset
  | _ => True

/-- what a section of a load or a fault can do, when the reads that may begin begin in the file -/
inductive Moves (s : Program) (phase : ImagePhase) : Program × (ImagePhase ⊕ ImageAnswer) → Prop
  | goesOn {next : ImagePhase} : next.Sound →
      (∀ off, next.Begins s.ino off → off ≤ s.file.data.length ∨ phase.Begins s.ino off) →
      Moves s phase (s, .inl next)
  | ends {res : ImageAnswer} : res ≠ .panicked → Moves s phase (s, .inr res)
  | records {regions : List FileMap} :
      (∀ f ∈ regions, ∀ off, FileMap.Begins f off → phase.Begins s.ino off) →
      Moves s phase (s.record regions, .inr .loaded)

lemma goOn_moves {x : Except Refusal ImagePhase} (hq : Quiet x)
    (hx : ∀ next, x = .ok next → next.Sound ∧ ∀ off, next.Begins s.ino off →
      off ≤ s.file.data.length ∨ phase.Begins s.ino off) : Moves s phase (goOn s x) := by
  cases x with
  | ok next =>
    obtain ⟨hsound, hbegins⟩ := hx next rfl
    exact .goesOn hsound hbegins
  | error e =>
    cases e with
    | panicked => exact absurd rfl hq.out
    | ENOEXEC => exact .ends fun h => by cases h
    | ENOMEM => exact .ends fun h => by cases h
    | card e => exact .ends fun h => by cases h

lemma finish_moves {x : Except Refusal (List Segment)} (hq : Quiet x)
    (hx : ∀ segments, x = .ok segments →
      ∀ segment ∈ segments, ∀ off, FileMap.Begins segment.file off → phase.Begins s.ino off) :
    Moves s phase (finish s x) := by
  cases x with
  | ok segments =>
    refine .records fun f hf off hoff => ?_
    obtain ⟨segment, hsegment, rfl⟩ := mem_map.mp hf
    exact hx segments rfl segment hsegment off hoff
  | error e =>
    cases e with
    | panicked => exact absurd rfl hq.out
    | ENOEXEC => exact .ends fun h => by cases h
    | ENOMEM => exact .ends fun h => by cases h
    | card e => exact .ends fun h => by cases h

lemma granted_ok {next : ImagePhase} (h : granted c phase = .ok next) : next = phase := by
  unfold granted at h
  split at h
  · cases h
    rfl
  · cases h

lemma quiet_granted (c : Supply) (phase : ImagePhase) : Quiet (granted c phase) := by
  unfold granted
  split
  · exact quiet_ok _
  · exact quiet_ENOMEM

lemma off_lt_of_mem_pieces {e : Extent} {piece : Piece} {fuel offset : Nat}
    (h : piece ∈ e.pieces fuel offset) : piece.off < e.fileOffset + e.fileLen := by
  induction fuel generalizing offset with
  | zero => exact absurd h not_mem_nil
  | succ fuel ih =>
    rw [Extent.pieces] at h
    split at h
    · rename_i hlt
      rcases mem_cons.mp h with rfl | h
      · exact Nat.add_lt_add_left hlt _
      · exact ih h
    · exact absurd h not_mem_nil

lemma dvd_base (interp : Bool) : PAGE_SIZE ∣ (baseOf interp).getD DYN_BASE := by
  cases interp <;> decide

/-- everything an image is read from was inside the file when its header was read -/
structure Layout.Inside (L : Layout) (ino : Nat) : Prop where
  pieces : ∀ piece ∈ copies L.loads, piece.off ≤ L.headers.head.size
  regions : ∀ off, RegionBegins ino L off → off ≤ L.headers.head.size
  into : ∀ l ∈ L.loads, l.extent.intoPage ≤ l.extent.fileOffset

lemma Layout.of_inside {headers : Headers} {interp : Bool} {L : Layout}
    (h : Layout.of headers (baseOf interp) = .ok L) (ino : Nat) :
    L.headers = headers ∧ L.Inside ino := by
  obtain ⟨loads, hloads, h⟩ := bind_ok h
  split at h
  · cases h
  cases h
  have hcoll := collect_collected hloads
  have hbase : PAGE_SIZE ∣ if headers.head.eType = ET_DYN then (baseOf interp).getD DYN_BASE else 0 := by
    split
    · exact dvd_base interp
    · exact Nat.dvd_zero _
  generalize (if headers.head.eType = ET_DYN then (baseOf interp).getD DYN_BASE else 0) = base
    at hcoll hbase
  have hinto : ∀ l ∈ loads, l.extent.intoPage ≤ l.extent.fileOffset := by
    intro l hl
    obtain ⟨hvaddr, hstart, -, hoff, -, -, -, -, haligned, -⟩ := hcoll.fits l hl
    simp only [Extent.intoPage, hvaddr, hstart, hoff, pageAlignDown, PAGE_SIZE] at *
    omega
  have hfile (l : Load) (hl : l ∈ loads) :
      l.extent.fileOffset + l.extent.fileLen ≤ headers.head.size := by
    have hfits := hcoll.fits l hl
    rw [hfits.fileOffset, hfits.fileLen]
    exact hfits.inFile
  refine ⟨rfl, fun piece hpiece => ?_, ?_, hinto⟩
  · obtain ⟨l, hl, hin⟩ := mem_flatMap.mp (mem_filter.mp hpiece).1
    have hlt := off_lt_of_mem_pieces hin
    have hle := hfile l hl
    dsimp only
    omega
  · rintro off ⟨l, hl, page, hpage, rfl⟩
    have hle := hfile l hl
    have hin := hinto l hl
    simp only [Load.region] at hpage ⊢
    omega

lemma loadSection_moves {s : Program} (c : Supply) (interp : Bool) {phase : ImagePhase}
    (hsound : phase.Sound) (hrange : ∀ off, phase.Begins s.ino off → off ≤ s.file.data.length) :
    Moves s phase (loadSection machine s c interp phase) := by
  have hstart : Moves s phase (goOn s do
      let (bytes, size) ← headOf s.node
      let h ← Head.of machine bytes size
      return .head h) := by
    refine goOn_moves ((quiet_headOf rfl).bind fun _ _ => (quiet_of ..).bind fun _ _ => quiet_ok _) ?_
    intro next hnext
    obtain ⟨found, hfound, hnext⟩ := bind_ok hnext
    obtain ⟨h, hh, hnext⟩ := bind_ok hnext
    cases hnext
    refine ⟨trivial, fun off hoff => .inl ?_⟩
    have hsize : h.size = s.node.data.length := (Head.of_size hh).trans (headOf_size hfound)
    exact hsize ▸ hoff
  cases phase with
  | start => exact hstart
  | filling offset want => exact hstart
  | changing step => exact hstart
  | head h =>
    refine goOn_moves ?_ fun next hnext => ?_
    · exact (quiet_table h rfl).bind fun _ _ => (quiet_layout ..).bind fun _ _ => quiet_granted ..
    · obtain ⟨phdrs, -, hnext⟩ := bind_ok hnext
      obtain ⟨L, hL, hnext⟩ := bind_ok hnext
      obtain rfl := granted_ok hnext
      obtain ⟨hheaders, hinside⟩ := Layout.of_inside hL s.ino
      have hsize : L.headers.head.size = h.size := by rw [hheaders]
      refine ⟨hinside.into, fun off hoff => .inr ?_⟩
      show off ≤ h.size
      rw [← hsize]
      rcases hoff with ⟨piece, hpiece, rfl⟩ | ⟨ph, -, -, hfits, rfl⟩ | hregion
      · exact hinside.pieces piece hpiece
      · omega
      · exact hinside.regions off hregion
  | reading L todo =>
    cases todo with
    | nil =>
      refine goOn_moves ((quiet_phdrAddr ..).bind fun _ _ => quiet_granted ..) fun next hnext => ?_
      obtain ⟨_, -, hnext⟩ := bind_ok hnext
      obtain rfl := granted_ok hnext
      exact ⟨hsound, fun off hoff => .inr (.inr hoff)⟩
    | cons piece todo =>
      have hin : piece.off ≤ s.file.data.length := hrange _ (.inl ⟨piece, mem_cons_self, rfl⟩)
      refine goOn_moves ((quiet_readInto hin _).bind fun _ _ => quiet_ok _) fun next hnext => ?_
      obtain ⟨_, -, hnext⟩ := bind_ok hnext
      cases hnext
      refine ⟨hsound, fun off hoff => .inr (hoff.imp_left ?_)⟩
      rintro ⟨piece', hpiece', rfl⟩
      exact ⟨piece', mem_cons_of_mem _ hpiece', rfl⟩
  | naming L todo =>
    cases todo with
    | nil =>
      have hsegment : ∀ l ∈ L.loads, Quiet (Load.segment s.ino l) := by
        intro l hl
        rw [Load.segment, if_pos (hsound l hl)]
        exact quiet_ok _
      refine finish_moves ((quiet_mapM hsegment).bind fun _ _ =>
        (quiet_sum _).bind fun _ _ => quiet_ok _) fun segments hx segment hmem off hoff => ?_
      obtain ⟨found, hfound, hx⟩ := bind_ok hx
      obtain ⟨_, -, hx⟩ := bind_ok hx
      cases hx
      rw [(mapM_segment hfound).1] at hmem
      obtain ⟨l, hl, rfl⟩ := mem_map.mp hmem
      exact .inr ⟨l, hl, hoff⟩
    | cons ph todo =>
      have hnote : Quiet (noteHeader s.node L.base L.headers.head.size none ph) := by
        unfold noteHeader
        split
        · rename_i hinterp
          refine (quiet_sum _).bind fun stop hstop => ?_
          split
          · exact quiet_ENOEXEC
          · have hfits : ph.pOffset + ph.pFilesz ≤ L.headers.head.size := by
              rw [← (sum_pair hstop).1]
              omega
            have hin : ph.pOffset ≤ s.file.data.length :=
              hrange _ (.inl ⟨ph, mem_cons_self, hinterp, hfits, rfl⟩)
            exact (quiet_readInto hin _).bind fun _ _ => quiet_ok _
        · split
          · exact (quiet_sum _).bind fun _ _ => quiet_ok _
          · exact quiet_ok _
      refine goOn_moves (hnote.bind fun _ _ => quiet_ok _) fun next hnext => ?_
      obtain ⟨_, -, hnext⟩ := bind_ok hnext
      cases hnext
      refine ⟨hsound, fun off hoff => .inr (hoff.imp_left ?_)⟩
      rintro ⟨ph', hph', hrest⟩
      exact ⟨ph', mem_cons_of_mem _ hph', hrest⟩

lemma faultSection_moves (region page : Nat)
    (hregions : ∀ f ∈ s.regions, ∀ off, FileMap.Begins f off → off ≤ s.file.data.length)
    (hrange : ∀ off, phase.Begins s.ino off → off ≤ s.file.data.length) :
    Moves s phase (faultSection s region page phase) := by
  have hplan : Moves s phase
      (match s.regions[region]? with
      | none => (s, .inr (.served false))
      | some file =>
        if page * PAGE_SIZE ≥ file.length then (s, .inr (.served true))
        else (s, .inl (.filling (file.offset + page * PAGE_SIZE)
          (min (file.length - page * PAGE_SIZE) PAGE_SIZE)))) := by
    cases hfile : s.regions[region]? with
    | none => exact .ends fun h => by cases h
    | some file =>
      dsimp only
      split
      · exact .ends fun h => by cases h
      · rename_i hlt
        refine .goesOn trivial fun off hoff => .inl ?_
        exact hregions file (mem_of_getElem? hfile) off ⟨page, Nat.lt_of_not_ge hlt, hoff⟩
  cases phase with
  | filling offset want =>
    have hq : Quiet (readInto s.node offset want) := quiet_readInto (hrange offset rfl) _
    have hends (yes : Bool) : Moves s (.filling offset want) (s, .inr (.served yes)) :=
      .ends fun h => by cases h
    cases hread : readInto s.node offset want with
    | ok bytes =>
      simp only [faultSection, hread]
      exact hends true
    | error e =>
      simp only [faultSection, hread]
      cases e with
      | panicked => exact absurd hread hq.out
      | ENOEXEC => exact hends false
      | ENOMEM => exact hends false
      | card e => exact hends false
  | start => exact hplan
  | head h => exact hplan
  | reading L todo => exact hplan
  | naming L todo => exact hplan
  | changing step => exact hplan

/-! ## runs -/

structure InRange (w : ImageThreads) : Prop where
  begins : ∀ off, Begins w off → off ≤ w.shared.file.data.length
  sound : ∀ {id op phase}, w.calls id = .running op phase → phase.Sound

section
variable {w : ImageThreads} {id : Nat} {op : ImageCall} {phase : ImagePhase}

lemma begins_set (hino : s.ino = w.shared.ino) (h : Begins (w.set s id p) off) :
    (∃ f ∈ s.regions, FileMap.Begins f off) ∨
      (∃ op phase, p = .running op phase ∧ phase.Begins w.shared.ino off) ∨ Begins w off := by
  rcases h with hregion | ⟨k, op, phase, hrun, hoff⟩
  · exact .inl hregion
  · rw [Threads.shared_set, hino] at hoff
    rcases Threads.calls_set_eq _ _ _ hrun with ⟨-, hp⟩ | ⟨-, hrun⟩
    · exact .inr (.inl ⟨op, phase, hp, hoff⟩)
    · exact .inr (.inr (.inr ⟨k, op, phase, hrun, hoff⟩))

section
variable (h : InRange w)
include h

lemma InRange.set (hino : s.ino = w.shared.ino)
    (hsound : ∀ op phase, p = .running op phase → phase.Sound)
    (hregions : ∀ f ∈ s.regions, ∀ off, FileMap.Begins f off → off ≤ s.file.data.length)
    (hphase : ∀ op phase, p = .running op phase → ∀ off, phase.Begins w.shared.ino off → off ≤ s.file.data.length)
    (hkeep : ∀ off, Begins w off → off ≤ s.file.data.length) : InRange (w.set s id p) where
  begins off hoff := by
    rcases begins_set hino hoff with ⟨f, hf, hoff⟩ | ⟨op, phase, hp, hoff⟩ | hoff
    · exact hregions f hf off hoff
    · exact hphase op phase hp off hoff
    · exact hkeep off hoff
  sound {k op phase} hrun := by
    rcases Threads.calls_set_eq _ _ _ hrun with ⟨-, hp⟩ | ⟨-, hrun⟩
    · exact hsound op phase hp
    · exact h.sound hrun

lemma InRange.ofCall (hrun : w.calls id = .running op phase) (off : Nat)
    (hoff : phase.Begins w.shared.ino off) : off ≤ w.shared.file.data.length :=
  h.begins off (.inr ⟨id, op, phase, hrun, hoff⟩)

lemma InRange.region (f : FileMap) (hf : f ∈ w.shared.regions) (off : Nat)
    (hoff : FileMap.Begins f off) : off ≤ w.shared.file.data.length :=
  h.begins off (.inl ⟨f, hf, hoff⟩)

/-- what a section leaves: the reads in range, and no answer that stops the machine -/
def Leaves (w : ImageThreads) (id : Nat) (op : ImageCall) :
    Program × (ImagePhase ⊕ ImageAnswer) → Prop
  | (s, .inl next) => InRange (w.set s id (.running op next))
  | (s, .inr res) => InRange (w.set s id .returned) ∧ res ≠ .panicked

lemma InRange.moves (hrun : w.calls id = .running op phase)
    {t : Program × (ImagePhase ⊕ ImageAnswer)} (hmoves : Moves w.shared phase t) :
    Leaves w id op t := by
  have hreturned : InRange (w.set w.shared id .returned) :=
    h.set rfl (fun _ _ hp => by cases hp) h.region (fun _ _ hp => by cases hp) h.begins
  cases hmoves with
  | goesOn hsound hnext =>
    refine h.set rfl (fun _ _ hp => by cases hp; exact hsound) h.region ?_ h.begins
    rintro _ _ hp off hoff
    cases hp
    rcases hnext off hoff with hle | hoff
    · exact hle
    · exact h.ofCall hrun off hoff
  | ends hres => exact ⟨hreturned, hres⟩
  | records hregions =>
    refine ⟨h.set rfl (fun _ _ hp => by cases hp) (fun f hf off hoff => ?_)
      (fun _ _ hp => by cases hp) h.begins, fun hres => by cases hres⟩
    rcases mem_append.mp hf with hf | hf
    · exact h.region f hf off hoff
    · exact h.ofCall hrun off (hregions f hf off hoff)

lemma InRange.changes (c : Supply) {ch : Fs.File.Change}
    (hspares : ∀ step, phase = .changing step → ∀ off, Begins w off →
      off ≤ (w.shared.file.change c.available ch step).1.data.length) :
    Leaves w id (.change ch) (changeSection w.shared c ch phase) := by
  have hwait : Leaves w id (.change ch) (w.shared, .inl (.changing .waiting)) :=
    h.set rfl (fun _ _ hp => by cases hp; trivial) h.region
      (fun _ _ hp off hoff => by cases hp; cases hoff) h.begins
  cases phase with
  | changing step =>
    have hlen := hspares step rfl
    rcases hch : w.shared.file.change c.available ch step with ⟨file, next | res⟩
    · rw [hch] at hlen
      simp only [changeSection, hch]
      exact h.set (s := w.shared.setFile file) rfl (fun _ _ hp => by cases hp; trivial)
        (fun f hf off hoff => hlen off (.inl ⟨f, hf, hoff⟩))
        (fun _ _ hp off hoff => by cases hp; cases hoff) hlen
    · rw [hch] at hlen
      simp only [changeSection, hch]
      exact ⟨h.set (s := w.shared.setFile file) rfl (fun _ _ hp => by cases hp)
        (fun f hf off hoff => hlen off (.inl ⟨f, hf, hoff⟩)) (fun _ _ hp => by cases hp) hlen,
        fun hres => by cases hres⟩
  | start => exact hwait
  | head hd => exact hwait
  | reading L todo => exact hwait
  | naming L todo => exact hwait
  | filling offset want => exact hwait

lemma InRange.go (hrun : w.calls id = .running op phase) (c : Supply)
    (hok : Spares w (.go id c)) : Leaves w id op (imageAdvance machine w.shared c op phase) := by
  cases op with
  | load interp =>
    exact h.moves hrun (loadSection_moves machine c interp (h.sound hrun) (h.ofCall hrun))
  | fault region page =>
    exact h.moves hrun (faultSection_moves region page h.region (h.ofCall hrun))
  | change ch =>
    refine h.changes c fun step hphase => ?_
    subst hphase
    exact hok.1 ch step hrun
  | mmap offset length =>
    refine ⟨h.set rfl (fun _ _ hp => by cases hp) (fun f hf off hoff => ?_)
      (fun _ _ hp => by cases hp) h.begins, fun hres => by cases hres⟩
    rcases mem_append.mp hf with hf | hf
    · exact h.region f hf off hoff
    · rw [mem_singleton] at hf
      subst hf
      exact hok.2 offset length phase hrun off hoff

lemma InRange.step {machine : Nat} {w' : ImageThreads} {evs : List (Event ImageCall ImageAnswer)}
    (hok : Spares w act) (hap : (imageObject machine).Happens w act w' evs) :
    InRange w' ∧ ∀ id, Event.ret id .panicked ∉ evs := by
  cases hap with
  | idle => exact ⟨h, fun _ hmem => absurd hmem not_mem_nil⟩
  | called op _ =>
    refine ⟨h.set rfl ?_ h.region ?_ h.begins, fun k hmem => ?_⟩
    · rintro _ _ hp
      cases hp
      cases op <;> trivial
    · rintro _ _ hp off hoff
      cases hp
      cases op <;> cases hoff
    · cases mem_singleton.mp hmem
  | @goesOn id c op phase next s hrun hadv =>
    have hgo := h.go machine hrun c hok
    rw [show imageAdvance machine w.shared c op phase = (s, .inl next) from hadv] at hgo
    exact ⟨hgo, fun _ hmem => absurd hmem not_mem_nil⟩
  | @returns id c op phase s res hrun hadv =>
    have hgo := h.go machine hrun c hok
    rw [show imageAdvance machine w.shared c op phase = (s, .inr res) from hadv] at hgo
    refine ⟨hgo.1, fun k hmem => ?_⟩
    cases mem_singleton.mp hmem
    exact hgo.2 rfl

end
end

/-- the reads in range, and no answer so far that stops the machine -/
def Calm (h : List (Event ImageCall ImageAnswer)) (w : ImageThreads) : Prop :=
  InRange w ∧ ∀ id, Event.ret id .panicked ∉ h

lemma Calm.step {h : List (Event ImageCall ImageAnswer)} (hcalm : Calm h w) (machine : Nat)
    (hok : Spares w act) :
    Calm (h ++ (imageObject machine).events w act) ((imageObject machine).step w act) := by
  obtain ⟨hw, hquiet⟩ := hcalm.1.step hok ((imageObject machine).happens w act)
  refine ⟨hw, fun id hmem => ?_⟩
  rcases mem_append.mp hmem with hmem | hmem
  · exact hcalm.2 id hmem
  · exact hquiet id hmem

/-- **reads stay in range** in every run of loads, faults, mappings, writes and truncations that
spares what may still be read -/
theorem reads_in_range (machine : Nat) (s : Program) (hs : s.regions = [])
    (as : List (Action ImageCall Supply))
    (h : Run.Allowed (imageObject machine).step Spares (.start s) as) (id : Nat) :
    Event.ret id .panicked ∉
      history (imageObject machine).step (imageObject machine).events (.start s) as := by
  have hstart : InRange (.start s) := by
    refine ⟨?_, fun hrun => by cases hrun⟩
    rintro off (⟨f, hf, -⟩ | ⟨_, _, _, hrun, -⟩)
    · rw [show (Threads.start s : ImageThreads).shared.regions = [] from hs] at hf
      exact absurd hf not_mem_nil
    · cases hrun
  have hcalm : Calm [] (.start s) := ⟨hstart, fun _ hmem => absurd hmem not_mem_nil⟩
  exact (history_keeps (I := Calm) (fun _ _ _ hI ha => hI.step machine ha) hcalm h).2 id

/-! ## a load that does not -/

def middle : ProgramHeader := ⟨PT_LOAD, 5, 100, 0x400064, 20, 20, 4096⟩

def installed : Program where
  ino := 1
  file := ⟨(program [middle]).data, 120, false, by decide +kernel⟩
  regions := []

def plenty : Supply := ⟨true, 4096⟩

def oneLoad : List (Action ImageCall Supply) :=
  .call 1 (.load false) :: replicate 6 (.go 1 plenty)

/-- where the last page of a mapped part begins -/
def lastPage (f : FileMap) : Nat := f.offset + (f.length - 1) / PAGE_SIZE * PAGE_SIZE

lemma FileMap.Begins.le_last {f : FileMap} {off : Nat} (h : FileMap.Begins f off) :
    off ≤ lastPage f := by
  obtain ⟨page, hpage, rfl⟩ := h
  have : page ≤ (f.length - 1) / PAGE_SIZE :=
    (Nat.le_div_iff_mul_le (by decide)).2 (by omega)
  exact Nat.add_le_add_left (Nat.mul_le_mul_right _ this) _

def spareChecks (ids : List Nat) (w : ImageThreads) : Action ImageCall Supply → Bool
  | .call _ _ => true
  | .go id c =>
    match w.calls id with
    | .running (.change ch) (.changing step) =>
      let stop := (w.shared.file.change c.available ch step).1.data.length
      (w.shared.regions.all fun f => decide (lastPage f ≤ stop)) && ids.all fun k =>
        match w.calls k with
        | .running _ (.filling offset _) => decide (offset ≤ stop)
        | .running _ .start | .running _ (.changing _) | .absent | .returned => true
        | _ => false
    | .running (.mmap offset length) _ =>
      decide (lastPage ⟨w.shared.ino, offset, length⟩ ≤ w.shared.file.data.length)
    | _ => true

lemma spares_of_checks {ids : List Nat} (w : ImageThreads) (act : Action ImageCall Supply)
    (habsent : ∀ k ∉ ids, w.calls k = .absent) (h : spareChecks ids w act = true) :
    Spares w act := by
  cases act with
  | call id op => trivial
  | go id c =>
    refine ⟨fun ch step hrun off hbegins => ?_, fun offset length phase hrun off hbegins => ?_⟩
    · simp only [spareChecks, hrun, Bool.and_eq_true, all_eq_true, decide_eq_true_eq] at h
      rcases hbegins with ⟨f, hf, hoff⟩ | ⟨k, op, phase, hk, hoff⟩
      · exact hoff.le_last.trans (h.1 f hf)
      · have hin : k ∈ ids := by_contra fun hk' => by cases hk.symm.trans (habsent k hk')
        have hphase := h.2 k hin
        rw [hk] at hphase
        cases phase with
        | filling offset want => exact hoff.trans_le (of_decide_eq_true hphase)
        | start | changing => exact hoff.elim
        | head | reading | naming => cases hphase
    · simp only [spareChecks, hrun, decide_eq_true_eq] at h
      exact hbegins.le_last.trans h

/-- the file is cut to 50 bytes between the plan of a fault in it and the read -/
def cutUnderFault : List (Action ImageCall Supply) :=
  oneLoad ++ [.call 2 (.fault 0 0), .call 3 (.change (.truncate 50)), .go 2 plenty] ++
    replicate 4 (.go 3 plenty) ++ [.go 2 plenty]

/-- the fault is served, from what is left of the file -/
theorem reads_in_range_cutUnderFault :
    history (imageObject 0x3E).step (imageObject 0x3E).events (.start installed) cutUnderFault =
      [.call 1 (.load false), .ret 1 .loaded, .call 2 (.fault 0 0), .call 3 (.change (.truncate 50)),
        .ret 3 (.changed (.done 0)), .ret 2 (.served true)] ∧
    Event.ret 2 .panicked ∉ history (imageObject 0x3E).step (imageObject 0x3E).events
      (.start installed) cutUnderFault := by
  have hok : Run.Allowed (imageObject 0x3E).step Spares (.start installed) cutUnderFault :=
    Object.allowed_of_checks [1, 2, 3] spares_of_checks (fun _ _ => rfl) (by decide)
      (by decide +kernel)
  exact ⟨by decide +kernel, reads_in_range 0x3E installed rfl cutUnderFault hok 2⟩

def truncatedLoad : List (Action ImageCall Supply) :=
  [.call 1 (.load false), .go 1 plenty, .go 1 plenty, .call 2 (.change (.truncate 0))] ++
    replicate 4 (.go 2 plenty) ++ [.go 1 plenty]

def faultPastEnd : List (Action ImageCall Supply) :=
  [.call 1 (.mmap 0 8192), .go 1 plenty, .call 2 (.fault 0 1), .go 2 plenty, .go 2 plenty]

/-- the load reads a piece that is not there any more, and the fault one that never was -/
theorem load_panics :
    history (imageObject 0x3E).step (imageObject 0x3E).events (.start installed) truncatedLoad =
      [.call 1 (.load false), .call 2 (.change (.truncate 0)), .ret 2 (.changed (.done 0)),
        .ret 1 .panicked] ∧
    history (imageObject 0x3E).step (imageObject 0x3E).events (.start installed) faultPastEnd =
      [.call 1 (.mmap 0 8192), .ret 1 .mapped, .call 2 (.fault 0 1), .ret 2 .panicked] := by
  constructor
  · decide +kernel
  · decide +kernel

end ClaudeOs.Elf
