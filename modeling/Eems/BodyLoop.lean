/-
The body loop over a file that may be cut short while it is being sent, for
all the ways in which reads return the bytes that are there.
-/
import Eems.ContentRange

namespace Eems

/-- The reads of a file that is `lengths turn` bytes long at each turn: no more
bytes than wanted, and none only at the end. -/
structure Transfer.Reads (transfer : Transfer) (content : Bytes) (lengths : Nat → Nat) :
    Prop where
  of_file : ∀ turn position wanted bytes, transfer.read turn position wanted = some bytes →
    bytes <+: (content.take (lengths turn)).drop position
  bounded : ∀ turn position wanted bytes, transfer.read turn position wanted = some bytes →
    bytes.length ≤ wanted
  progress : ∀ turn position wanted bytes, transfer.read turn position wanted = some bytes →
    0 < wanted → position < (content.take (lengths turn)).length → bytes ≠ []

/-- The loop ends, with the announced bytes of the file sent or with the
connection closed. -/
def Transfer.Delivers (transfer : Transfer) (response : ContentResponse) : Prop :=
  ∃ turns sent,
    bodyLoop transfer turns 0 response.position.toNat response.size [] = (sent, .closed) ∨
    bodyLoop transfer turns 0 response.position.toNat response.size [] = (sent, .keptOpen) ∧
      sent = (response.file.content.drop response.position.toNat).take sent.length ∧
      sent.length = response.header.contentLength

section Loop

variable {transfer : Transfer} {content : Bytes} {lengths : Nat → Nat}

/-- One turn that goes on takes the bytes read off what remains. -/
theorem toNat_sub_length {size : UInt64} {bytes : Bytes} (h : bytes.length ≤ size.toNat) :
    (size - bytes.length.toUInt64).toNat = size.toNat - bytes.length := by
  have hsize := size.toNat_lt
  simp only [UInt64.toNat_sub, Nat.toUInt64, UInt64.toNat_ofNat']
  omega

/-- While the file holds the bytes that remain, every turn makes progress. -/
theorem bodyLoop_sends (hreads : transfer.Reads content lengths) {fuel turn position : Nat}
    {size : UInt64} {sent : Bytes}
    (hinside : ∀ later, turn ≤ later → later < turn + size.toNat →
      position + size.toNat ≤ (content.take (lengths later)).length)
    (hfuel : size.toNat < fuel) :
    let result := bodyLoop transfer fuel turn position size sent
    (result.2 = .keptOpen ∧ result.1 = sent ++ (content.drop position).take size.toNat) ∨
      (result.2 = .closed ∧ ∃ part, part.length ≤ size.toNat ∧ result.1 = sent ++ part) := by
  induction fuel generalizing turn position size sent with
  | zero => omega
  | succ fuel ih =>
      simp only [bodyLoop]
      by_cases hdone : min size.toNat 4096 = 0
      · have hzero : size.toNat = 0 := by omega
        simp [hzero]
      · rw [if_neg hdone]
        generalize hwanted : min size.toNat 4096 = wanted at hdone
        cases hread : transfer.read turn position wanted with
        | none => exact Or.inr ⟨rfl, [], by simp, by simp⟩
        | some bytes =>
            have hbounded := hreads.bounded _ _ _ _ hread
            have hprogress := hreads.progress _ _ _ _ hread (by omega) (by
              have := hinside turn le_rfl (by omega)
              omega)
            have hpos := List.length_pos_iff.mpr hprogress
            obtain ⟨rest, hrest⟩ := hreads.of_file _ _ _ _ hread
            have hsize := @toNat_sub_length size bytes (by omega)
            simp only
            cases hwrite : transfer.write turn with
            | some part =>
                refine Or.inr ⟨rfl, bytes.take part, ?_, rfl⟩
                rw [List.length_take]
                omega
            | none =>
                -- what was read is what stands at the position in the whole file
                have hbytes : (content.drop position).take bytes.length = bytes := by
                  have hprefix : (content.take (lengths turn)).drop position <+:
                      content.drop position := (List.take_prefix _ _).drop position
                  exact (List.prefix_iff_eq_take.mp ((hrest ▸ List.prefix_append bytes rest).trans
                    hprefix)).symm
                simp only
                rcases @ih (turn + 1) (position + bytes.length) (size - bytes.length.toUInt64)
                  (sent ++ bytes) (fun later hlater hbefore => by
                    have := hinside later (by omega) (by omega)
                    omega) (by omega) with ⟨hopen, hsent⟩ | ⟨hclosed, part, hpart, hsent⟩
                · refine Or.inl ⟨hopen, ?_⟩
                  have hsplit : size.toNat = bytes.length + (size.toNat - bytes.length) := by
                    omega
                  rw [hsent, hsize, hsplit, List.take_add, hbytes, List.drop_drop,
                    List.append_assoc, Nat.add_sub_cancel_left]
                · refine Or.inr ⟨hclosed, bytes ++ part, ?_, ?_⟩
                  · rw [List.length_append]
                    omega
                  · rw [hsent, List.append_assoc]

/-- Reading a file that stays as it is. -/
theorem reads_transfer (file : File) (write : Nat → Option Nat) :
    (file.transfer write).Reads file.content fun _ => file.content.length := by
  refine ⟨?_, ?_, ?_⟩
  · rintro turn position wanted bytes ⟨⟩
    rw [List.take_length]
    exact List.take_prefix _ _
  · rintro turn position wanted bytes ⟨⟩
    exact List.length_take_le _ _
  · rintro turn position wanted bytes ⟨⟩ hwanted hinside hnil
    have hlength := congrArg List.length hnil
    rw [List.length_take, List.length_drop, List.length_nil] at hlength
    rw [List.take_length] at hinside
    omega

/-- A file read one byte at a time, all of whose writes succeed. -/
def oneByOne (content : Bytes) (lengths : Nat → Nat) : Transfer where
  read turn position wanted :=
    some (((content.take (lengths turn)).drop position).take (min 1 wanted))
  write _ := none

theorem reads_oneByOne (content : Bytes) (lengths : Nat → Nat) :
    (oneByOne content lengths).Reads content lengths := by
  refine ⟨?_, ?_, ?_⟩
  · rintro turn position wanted bytes ⟨⟩
    exact List.take_prefix _ _
  · rintro turn position wanted bytes ⟨⟩
    rw [List.length_take]
    omega
  · rintro turn position wanted bytes ⟨⟩ hwanted hinside hnil
    have hlength := congrArg List.length hnil
    rw [List.length_take, List.length_drop, List.length_nil] at hlength
    omega

/-- Once the file is too short, the bytes that remain never come. -/
theorem bodyLoop_oneByOne (hshrinks : Antitone lengths) {short fuel turn position : Nat}
    {size : UInt64} {sent : Bytes} (hshort : lengths short < position + size.toNat)
    (hremains : 0 < size.toNat) (hearly : short < turn + size.toNat) :
    (bodyLoop (oneByOne content lengths) fuel turn position size sent).2 = .running := by
  induction fuel generalizing turn position size sent with
  | zero => rfl
  | succ fuel ih =>
      have hwanted : ¬ min size.toNat 4096 = 0 := by omega
      simp only [bodyLoop, if_neg hwanted, oneByOne]
      generalize hbytes : ((content.take (lengths turn)).drop position).take
        (min 1 (min size.toNat 4096)) = bytes
      have hlength := congrArg List.length hbytes
      rw [List.length_take, List.length_drop, List.length_take] at hlength
      have hsize := @toNat_sub_length size bytes (by omega)
      -- from `short` on the file ends before the last byte wanted
      have hlate : short ≤ turn → lengths turn ≤ lengths short := fun hturn => hshrinks hturn
      exact ih (by omega) (by omega) (by omega)

end Loop

/-- A response that is being sent from a file that may get shorter, but not
longer than it was when its size was read. -/
structure Sending (db : Db) (files : Files) (subPath : Path) (request : HttpRequest)
    (response : ContentResponse) (lengths : Nat → Nat) : Prop where
  handed : createResponse db files subPath request = .ok response
  shrinks : Antitone lengths
  start : lengths 0 ≤ response.file.content.length

theorem contentLength_of_fileResponse {request : HttpRequest} {file : File}
    {range : Option UInt64 × Option UInt64} {response : ContentResponse}
    (h : fileResponse request file range = .ok response) :
    response.header.contentLength = response.size.toNat := by
  unfold fileResponse at h
  split at h
  · simp at h
  split at h
  · split at h
    · simp at h
    · split at h
      · simp at h
      · obtain rfl := Except.ok.inj h
        rfl
  · obtain rfl := Except.ok.inj h
    rfl

/-- A created response comes from the range arithmetic over an open file. -/
theorem exists_fileResponse {db : Db} {files : Files} {subPath : Path} {request : HttpRequest}
    {response : ContentResponse} (h : createResponse db files subPath request = .ok response) :
    ∃ file range, fileResponse request file range = .ok response := by
  unfold createResponse at h
  cases hid : parseInt64 (cString subPath) with
  | none => simp [hid] at h
  | some id =>
      cases hrequest : requestRange request with
      | error error => simp [hid, hrequest, bind, Except.bind] at h
      | ok range =>
          cases hlocation : resourceLocation db id subPath with
          | error error => simp [hid, hrequest, hlocation, bind, Except.bind] at h
          | ok location =>
              cases hopen : openFile files location subPath with
              | error error => simp [hid, hrequest, hlocation, hopen, bind, Except.bind] at h
              | ok file =>
                  simp only [hid, hrequest, hlocation, hopen, bind, Except.bind] at h
                  exact ⟨file, range, h⟩

variable {db : Db} {files : Files} {subPath : Path} {request : HttpRequest}
  {response : ContentResponse} {lengths : Nat → Nat}

/-- Whatever the reads and writes come to, the loop ends well: exactly when the
file holds all of the bytes announced for as many turns as there are bytes. -/
theorem bodyLoop_delivers_iff (h : Sending db files subPath request response lengths) :
    (∀ transfer : Transfer, transfer.Reads response.file.content lengths →
        transfer.Delivers response) ↔
      ∀ turn < response.size.toNat,
        response.position.toNat + response.size.toNat ≤ lengths turn := by
  obtain ⟨file, range, hfile⟩ := exists_fileResponse h.handed
  have hannounced := contentLength_of_fileResponse hfile
  constructor
  · intro hdelivers short hshort
    by_contra hlong
    obtain ⟨turns, sent, hend⟩ := hdelivers _ (reads_oneByOne _ _)
    have hrunning := @bodyLoop_oneByOne response.file.content lengths h.shrinks short turns 0
      response.position.toNat response.size [] (by omega) (by omega) (by omega)
    rcases hend with hend | ⟨hend, -⟩ <;> rw [hend] at hrunning <;> simp at hrunning
  · intro hholds transfer hreads
    have hlength : ∀ turn, lengths turn ≤ response.file.content.length := fun turn =>
      (h.shrinks (Nat.zero_le turn)).trans h.start
    have hinside : ∀ later, 0 ≤ later → later < 0 + response.size.toNat →
        response.position.toNat + response.size.toNat ≤
          (response.file.content.take (lengths later)).length := by
      intro later _ hlater
      have := hholds later (by omega)
      have := hlength later
      rw [List.length_take]
      omega
    have hloop := @bodyLoop_sends transfer _ _ hreads (response.size.toNat + 1) 0 _ _ [] hinside
      (by omega)
    generalize hresult : bodyLoop transfer (response.size.toNat + 1) 0
      response.position.toNat response.size [] = result at hloop
    obtain ⟨sent, ending⟩ := result
    rcases hloop with ⟨rfl, hsent⟩ | ⟨rfl, -⟩
    · have hcount : sent.length = response.size.toNat := by
        have hall : 0 < response.size.toNat → response.position.toNat + response.size.toNat ≤
            response.file.content.length := fun hpos => (hholds 0 hpos).trans h.start
        have hlengths := congrArg List.length hsent
        simp only [List.nil_append, List.length_take, List.length_drop] at hlengths
        omega
      refine ⟨_, sent, Or.inr ⟨hresult, ?_, hcount.trans hannounced.symm⟩⟩
      rw [hcount]
      simpa using hsent
    · exact ⟨_, sent, Or.inl hresult⟩

theorem sending_film {range : String} {response : ContentResponse}
    (h : createResponse filmDb filmOnDisk (ascii "5") (rangeOfFilm range) = .ok response)
    (hfile : response.file = hundredBytes) :
    Sending filmDb filmOnDisk (ascii "5") (rangeOfFilm range) response fun _ => 100 :=
  ⟨h, antitone_const, by rw [hfile]; decide⟩

/-- Ten bytes of a hundred. -/
def tenBytes : ContentResponse where
  header := contentHeader (rangeOfFilm "bytes=10-19") Status.partialContent
    [(ascii "content-range", ascii "bytes 10-19/100")] 10
  file := hundredBytes
  position := 10
  size := 10

theorem bodyLoop_delivers_film :
    tenBytes.header.contentLength = 10 ∧
      ∀ transfer : Transfer, transfer.Reads hundredBytes.content (fun _ => 100) →
        transfer.Delivers tenBytes :=
  ⟨rfl, (bodyLoop_delivers_iff
    (@sending_film "bytes=10-19" tenBytes (by decide +kernel) rfl)).mpr fun _ _ => by decide⟩

/-- Two hundred of a hundred bytes. -/
def twoHundredBytes : ContentResponse where
  header := contentHeader (rangeOfFilm "bytes=0-199") Status.partialContent
    [(ascii "content-range", ascii "bytes 0-199/100")] 200
  file := hundredBytes
  position := 0
  size := 200

/-- The file has not changed and no write fails, but the loop never ends. -/
theorem bodyLoop_past_end :
    createResponse filmDb filmOnDisk (ascii "5") (rangeOfFilm "bytes=0-199") =
        .ok twoHundredBytes ∧
      ∃ transfer : Transfer, transfer.Reads hundredBytes.content (fun _ => 100) ∧
        (∀ turns, (bodyLoop transfer turns 0 twoHundredBytes.position.toNat
          twoHundredBytes.size []).2 = .running) ∧
        ¬ transfer.Delivers twoHundredBytes := by
  have hrunning : ∀ turns, (bodyLoop (oneByOne hundredBytes.content fun _ => 100) turns 0
      twoHundredBytes.position.toNat twoHundredBytes.size []).2 = .running := fun turns =>
    @bodyLoop_oneByOne hundredBytes.content (fun _ => 100) antitone_const 0 turns 0 0 200 []
      (by decide) (by decide) (by decide)
  refine ⟨by decide +kernel, _, reads_oneByOne _ _, hrunning, ?_⟩
  rintro ⟨turns, sent, hend | ⟨hend, -⟩⟩
  · simpa [hend] using hrunning turns
  · simpa [hend] using hrunning turns

end Eems
