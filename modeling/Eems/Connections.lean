/-
A connection as a coroutine that runs from one completed operation to the
next.  What it has sent when it waits for a request again is what
`handle_connections` replies to the requests it has read.
-/
import Eems.Server
import Eems.Basic.Schedule

namespace Eems

open Framing Schedule

/-- What the coroutine of a connection waits for. -/
inductive Waiting where
  | request
  | response (header : ResponseHeader) (body : Bytes)
  | contentHeader (response : ContentResponse) (head : Bool)
  | chunk (file : File) (position : Nat) (size : UInt64) (bytes : Bytes)
  | ended

/-- How an operation completes; a write that fails has sent a part of what it
was given. -/
inductive Completion where
  | read (request : HttpRequest)
  | readFailed
  | written
  | writeFailed (part : Nat)

structure Connection where
  waiting : Waiting
  sent : List (Token ResponseHeader UInt8)

/-- A connection just accepted. -/
def Connection.accepted : Connection := ⟨.request, []⟩

def Waiting.ofReply (reply : Reply) : Waiting :=
  match reply.header with
  | some header => .response header reply.body
  | none => .ended

/-- The top of the body loop: fill the buffer and write it, or be done. -/
def nextChunk (file : File) (position : Nat) (size : UInt64) : Waiting :=
  let wanted := min size.toNat 4096
  if wanted = 0 then .request
  else .chunk file position size ((file.content.drop position).take wanted)

/-- `handle_connections` from a request to its first write. -/
def Server.dispatch (server : Server) (request : HttpRequest) : Waiting :=
  match splitTarget request.target with
  | none => .ofReply (makeErrorResponse Status.ok indexPage request)
  | some (first, subPath) =>
      if first = ascii "upnp" then
        match handleUpnpRequest server.pugi server.db server.config request subPath with
        | .ok body => .ofReply (createBufferResponse request body "text/xml")
        | .error error => .ofReply (server.recover request error)
      else if first = ascii "content" then
        match createResponse server.db server.files subPath request with
        | .ok response => .contentHeader response (request.method = .head)
        | .error error => .ofReply (server.recover request error)
      else .ofReply (makeErrorResponse Status.notFound (ascii "Not found") request)

/-- From a completion to where the coroutine is suspended next; `none` where it
does not wait for such an operation. -/
def Connection.resume (server : Server) (connection : Connection) :
    Completion → Option Connection
  | .read request =>
      match connection.waiting with
      | .request => some { connection with waiting := server.dispatch request }
      | _ => none
  | .readFailed =>
      match connection.waiting with
      | .request => some { connection with waiting := .ended }
      | _ => none
  | .written =>
      match connection.waiting with
      | .response header body =>
          some ⟨.request, connection.sent ++ Message.tokens ⟨header, body⟩⟩
      | .contentHeader response head =>
          some ⟨if head then .request
            else nextChunk response.file response.position.toNat response.size,
            connection.sent ++ [.header response.header]⟩
      | .chunk file position size bytes =>
          some ⟨nextChunk file (position + bytes.length) (size - bytes.length.toUInt64),
            connection.sent ++ bytes.map .byte⟩
      | _ => none
  | .writeFailed part =>
      match connection.waiting with
      | .response header body =>
          some ⟨.ended, connection.sent ++ (Message.tokens ⟨header, body⟩).take part⟩
      | .contentHeader _ _ => some { connection with waiting := .ended }
      | .chunk _ _ _ bytes =>
          some ⟨.ended, connection.sent ++ (bytes.take part).map .byte⟩
      | _ => none

/-- The request that a completion delivers. -/
def Completion.request? : Completion → Option HttpRequest
  | .read request => some request
  | _ => none

/-- How far the write came that a completion is the failure of. -/
def Completion.failedPart : Completion → Option Nat
  | .writeFailed part => some part
  | _ => none

/-- How the writes of a body come out, if its first chunk's is the first of the
completions. -/
def writesOf (completions : List Completion) (turn : Nat) : Option Nat :=
  completions[turn]?.bind Completion.failedPart

/-- The requests that a connection reads, each with how the writes of its answer
come out; the first of these is the header's. -/
def arrivalsOf : List Completion → List Arrival
  | [] => []
  | .read request :: completions =>
      ⟨request, writesOf completions.tail⟩ :: arrivalsOf completions
  | _ :: completions => arrivalsOf completions

/-- How the writes of the body that a connection is about to send, or sends,
come out. -/
def Waiting.bodyWrites (waiting : Waiting) (completions : List Completion) : Nat → Option Nat :=
  match waiting with
  | .chunk _ _ _ _ => writesOf completions
  | _ => writesOf completions.tail

theorem map_request_arrivalsOf (completions : List Completion) :
    (arrivalsOf completions).map Arrival.request =
      completions.filterMap Completion.request? := by
  induction completions with
  | nil => rfl
  | cons completion completions ih =>
      cases completion with
      | read request => simp [arrivalsOf, Completion.request?, ih]
      | _ => exact ih

section Body

/-- What has been sent before only stands in front. -/
theorem bodyLoop_sent (transfer : Transfer) (fuel turn position : Nat) (size : UInt64)
    (sent : Bytes) :
    bodyLoop transfer fuel turn position size sent =
      (sent ++ (bodyLoop transfer fuel turn position size []).1,
        (bodyLoop transfer fuel turn position size []).2) := by
  induction fuel generalizing turn position size sent with
  | zero => simp [bodyLoop]
  | succ fuel ih =>
      simp only [bodyLoop]
      split
      · simp
      · cases transfer.read turn position (min size.toNat 4096) with
        | none => simp
        | some bytes =>
            cases transfer.write turn with
            | some part => simp
            | none =>
                simp only [List.nil_append]
                rw [ih, ih (turn + 1) _ _ bytes]
                simp

theorem File.read_transfer (file : File) (write : Nat → Option Nat)
    (turn position wanted : Nat) :
    (file.transfer write).read turn position wanted =
      some ((file.content.drop position).take wanted) := rfl

theorem File.write_transfer (file : File) (write : Nat → Option Nat) :
    (file.transfer write).write = write := rfl

/-- The turns of a file's transfer are told apart by their writes only. -/
theorem bodyLoop_shift (file : File) (write : Nat → Option Nat) (fuel turn position : Nat)
    (size : UInt64) (sent : Bytes) :
    bodyLoop (file.transfer write) fuel (turn + 1) position size sent =
      bodyLoop (file.transfer fun n => write (n + 1)) fuel turn position size sent := by
  induction fuel generalizing turn position size sent with
  | zero => rfl
  | succ fuel ih =>
      simp only [bodyLoop, File.read_transfer, File.write_transfer]
      split
      · rfl
      · cases write (turn + 1) with
        | some part => rfl
        | none => exact ih _ _ _ _

end Body

section Finish

variable (server : Server) (fuel : Nat) (write : Nat → Option Nat) (arrivals : List Arrival)

/-- What `handle_connections` sends for the requests. -/
def Server.stream (arrivals : List Arrival) : List (Token ResponseHeader UInt8) :=
  (server.handleConnections fuel arrivals).flatMap Reply.tokens

/-- The rest of a body, and what follows where the connection stays open. -/
def Server.bodyStream (result : Bytes × Ending) : List (Token ResponseHeader UInt8) :=
  result.1.map .byte ++ if result.2 = .keptOpen then server.stream fuel arrivals else []

/-- What is still to be sent from where a connection waits, if the writes of the
body that is being sent come to `write` and `arrivals` are read after it. -/
def Waiting.finish (turns : Nat) : Waiting → List (Token ResponseHeader UInt8)
  | .request => server.stream fuel arrivals
  | .response header body => Message.tokens ⟨header, body⟩ ++ server.stream fuel arrivals
  | .contentHeader content head =>
      .header content.header ::
        if head then server.stream fuel arrivals
        else server.bodyStream fuel arrivals (bodyLoop (content.file.transfer write) turns 0
          content.position.toNat content.size [])
  | .chunk file position size bytes =>
      match write 0 with
      | some part => (bytes.take part).map .byte
      | none =>
          bytes.map .byte ++ server.bodyStream fuel arrivals
            (bodyLoop (file.transfer fun n => write (n + 1)) turns 0
              (position + bytes.length) (size - bytes.length.toUInt64) [])
  | .ended => []

theorem finish_nextChunk (turns : Nat) (file : File) (position : Nat) (size : UInt64) :
    (nextChunk file position size).finish server fuel write arrivals turns =
      server.bodyStream fuel arrivals
        (bodyLoop (file.transfer write) (turns + 1) 0 position size []) := by
  unfold nextChunk
  simp only [bodyLoop]
  split
  · simp [Waiting.finish, Server.bodyStream]
  · simp only [Waiting.finish, File.read_transfer, File.write_transfer, List.nil_append]
    cases write 0 with
    | some part => simp [Server.bodyStream]
    | none =>
        simp only
        rw [bodyLoop_sent (file.transfer write), bodyLoop_shift]
        simp [Server.bodyStream]

/-- A reply that is written as a whole, or not at all. -/
def Reply.Whole (reply : Reply) : Prop :=
  reply = dropConnection ∨ ∃ header body, reply = writeResponse header body

theorem whole_recover (request : HttpRequest) (error : ServerError) :
    (server.recover request error).Whole := by
  cases error with
  | http status what => exact Or.inr ⟨_, _, rfl⟩
  | upnp code what => exact Or.inr ⟨_, _, rfl⟩
  | store failure => exact Or.inl rfl

theorem stream_cons (arrival : Arrival) :
    server.stream fuel (arrival :: arrivals) = (server.handle fuel arrival).tokens ++
      if (server.handle fuel arrival).ending = .keptOpen then server.stream fuel arrivals
      else [] := by
  cases hending : (server.handle fuel arrival).ending <;>
    simp [Server.stream, Server.handleConnections, hending]

theorem finish_ofReply {request : HttpRequest} {reply : Reply} (hwhole : reply.Whole)
    (hreply : server.handle fuel ⟨request, write⟩ = reply) (turns : Nat) :
    (Waiting.ofReply reply).finish server fuel write arrivals turns =
      server.stream fuel (⟨request, write⟩ :: arrivals) := by
  rw [stream_cons, hreply]
  rcases hwhole with rfl | ⟨header, body, rfl⟩
  · rfl
  · rfl

theorem finish_contentHeader {request : HttpRequest} {response : ContentResponse}
    (hreply : server.handle fuel ⟨request, write⟩ =
      sendContent fuel ⟨request, write⟩ response) :
    (Waiting.contentHeader response (request.method = .head)).finish server fuel write arrivals
        fuel =
      server.stream fuel (⟨request, write⟩ :: arrivals) := by
  rw [stream_cons, hreply]
  simp only [Waiting.finish, sendContent, decide_eq_true_eq]
  split
  · rfl
  · simp [Reply.tokens, Message.tokens, Server.bodyStream]

/-- Where the coroutine waits after a request there remains what
`handle_connections` sends for it. -/
theorem finish_dispatch (request : HttpRequest) :
    (server.dispatch request).finish server fuel write arrivals fuel =
      server.stream fuel (⟨request, write⟩ :: arrivals) := by
  have hne : ascii "content" ≠ ascii "upnp" := by decide
  unfold Server.dispatch
  split
  · rename_i htarget
    apply finish_ofReply
    · exact Or.inr ⟨_, _, rfl⟩
    · simp only [Server.handle, htarget]
  · rename_i first subPath htarget
    split
    · rename_i hupnp
      subst hupnp
      split
      · rename_i body hbody
        apply finish_ofReply
        · exact Or.inr ⟨_, _, rfl⟩
        · simp only [Server.handle, htarget, ↓reduceIte, hbody]
      · rename_i error herror
        apply finish_ofReply
        · exact whole_recover server request error
        · simp only [Server.handle, htarget, ↓reduceIte, herror]
    · rename_i hupnp
      split
      · rename_i hcontent
        subst hcontent
        split
        · rename_i response hresponse
          apply finish_contentHeader
          simp only [Server.handle, htarget, hne, ↓reduceIte, hresponse]
        · rename_i error herror
          apply finish_ofReply
          · exact whole_recover server request error
          · simp only [Server.handle, htarget, hne, ↓reduceIte, herror]
      · rename_i hcontent
        apply finish_ofReply
        · exact Or.inr ⟨_, _, rfl⟩
        · simp only [Server.handle, htarget, hupnp, hcontent, ↓reduceIte]

theorem bodyWrites_dispatch (request : HttpRequest) (completions : List Completion) :
    (server.dispatch request).bodyWrites completions = writesOf completions.tail := by
  have hreply : ∀ reply, (Waiting.ofReply reply).bodyWrites completions =
      writesOf completions.tail := by
    intro reply
    unfold Waiting.ofReply
    split <;> rfl
  unfold Server.dispatch
  split
  · exact hreply _
  · split
    · split
      · exact hreply _
      · exact hreply _
    · split
      · split
        · rfl
        · exact hreply _
      · exact hreply _

/-- What is still to be sent where the operations are to complete so. -/
def Waiting.remaining (waiting : Waiting) (completions : List Completion) (turns : Nat) :
    List (Token ResponseHeader UInt8) :=
  waiting.finish server fuel (waiting.bodyWrites completions) (arrivalsOf completions) turns

theorem remaining_nextChunk (file : File) (position : Nat) (size : UInt64)
    (completions : List Completion) (turns : Nat) :
    (nextChunk file position size).remaining server fuel completions turns =
      server.bodyStream fuel (arrivalsOf completions)
        (bodyLoop (file.transfer (writesOf completions)) (turns + 1) 0 position size []) := by
  rw [← finish_nextChunk]
  unfold nextChunk Waiting.remaining
  simp only
  split
  · rfl
  · rfl

end Finish

/-- What a connection has sent from some point on, compared to what was still
to be sent there. -/
structure Sent (server : Server) (connection final : Connection) (completions : List Completion)
    (out : List (Token ResponseHeader UInt8)) : Prop where
  sent : final.sent = connection.sent ++ out
  begun : ∀ fuel turns, completions.length ≤ fuel → completions.length ≤ turns →
    out <+: connection.waiting.remaining server fuel completions turns
  whole : final.waiting = .request → ∀ fuel turns, completions.length ≤ fuel →
    completions.length ≤ turns →
    out = connection.waiting.remaining server fuel completions turns

section Run

variable {server : Server} {connection next final : Connection} {completion : Completion}
  {completions : List Completion} {out : List (Token ResponseHeader UInt8)}

/-- A completion that takes a piece of what was to be sent. -/
theorem Sent.cons (h : Sent server next final completions out)
    {piece : List (Token ResponseHeader UInt8)} (hsent : next.sent = connection.sent ++ piece)
    (hremaining : ∀ fuel turns, completions.length < fuel → completions.length < turns →
      ∃ turns', completions.length ≤ turns' ∧
        connection.waiting.remaining server fuel (completion :: completions) turns =
          piece ++ next.waiting.remaining server fuel completions turns') :
    Sent server connection final (completion :: completions) (piece ++ out) where
  sent := by rw [h.sent, hsent, List.append_assoc]
  begun fuel turns hfuel hturns := by
    obtain ⟨turns', hturns', heq⟩ := hremaining fuel turns hfuel hturns
    rw [heq, List.prefix_append_right_inj]
    exact h.begun fuel turns' (Nat.le_of_succ_le hfuel) hturns'
  whole hwaiting fuel turns hfuel hturns := by
    obtain ⟨turns', hturns', heq⟩ := hremaining fuel turns hfuel hturns
    rw [heq, ← h.whole hwaiting fuel turns' (Nat.le_of_succ_le hfuel) hturns']

/-- Nothing happens to a connection that has ended. -/
theorem run_resume_ended (hended : next.waiting = .ended)
    (h : run (Connection.resume server) next completions = some final) :
    completions = [] ∧ final = next := by
  cases completions with
  | nil => exact ⟨rfl, (Option.some.inj h).symm⟩
  | cons completion completions =>
      obtain ⟨later, hstep, -⟩ := Option.bind_eq_some_iff.mp h
      cases completion <;> simp [Connection.resume, hended] at hstep

/-- A completion that ends the connection, with a piece of what was to be sent. -/
theorem Sent.last (hended : next.waiting = .ended)
    (h : run (Connection.resume server) next completions = some final)
    {piece : List (Token ResponseHeader UInt8)} (hsent : next.sent = connection.sent ++ piece)
    (hbegun : ∀ fuel turns,
      piece <+: connection.waiting.remaining server fuel [completion] turns) :
    Sent server connection final (completion :: completions) piece := by
  obtain ⟨rfl, rfl⟩ := run_resume_ended hended h
  refine ⟨hsent, fun fuel turns _ _ => hbegun fuel turns, ?_⟩
  intro hwaiting
  simp [hended] at hwaiting

/-- By the completions: what is sent is what was to be sent, as far as it went. -/
theorem run_resume (h : run (Connection.resume server) connection completions = some final) :
    ∃ out, Sent server connection final completions out := by
  induction completions generalizing connection with
  | nil =>
      obtain rfl := Option.some.inj h
      refine ⟨[], (List.append_nil _).symm, ?_, ?_⟩
      · intro fuel turns _ _
        exact List.nil_prefix
      · intro hwaiting fuel turns _ _
        simp [hwaiting, Waiting.remaining, Waiting.finish, Server.stream, arrivalsOf,
          Server.handleConnections]
  | cons completion completions ih =>
      obtain ⟨next, hstep, hrest⟩ := Option.bind_eq_some_iff.mp h
      obtain ⟨waiting, sent⟩ := connection
      cases completion with
      | read request =>
          cases waiting with
          | request =>
              obtain rfl := Option.some.inj hstep
              obtain ⟨out, hnext⟩ := ih hrest
              refine ⟨[] ++ out, hnext.cons (List.append_nil sent).symm ?_⟩
              intro fuel turns hfuel _
              refine ⟨fuel, Nat.le_of_lt hfuel, ?_⟩
              simp only [Waiting.remaining, bodyWrites_dispatch]
              exact (finish_dispatch server fuel _ _ request).symm
          | _ => simp [Connection.resume] at hstep
      | readFailed =>
          cases waiting with
          | request =>
              obtain rfl := Option.some.inj hstep
              refine ⟨[], Sent.last rfl hrest (List.append_nil sent).symm ?_⟩
              intro fuel turns
              exact List.nil_prefix
          | _ => simp [Connection.resume] at hstep
      | written =>
          cases waiting with
          | response header body =>
              obtain rfl := Option.some.inj hstep
              obtain ⟨out, hnext⟩ := ih hrest
              refine ⟨Message.tokens ⟨header, body⟩ ++ out, hnext.cons rfl ?_⟩
              intro fuel turns _ hturns
              exact ⟨turns, Nat.le_of_lt hturns, rfl⟩
          | contentHeader response head =>
              obtain rfl := Option.some.inj hstep
              obtain ⟨out, hnext⟩ := ih hrest
              refine ⟨[.header response.header] ++ out, hnext.cons rfl ?_⟩
              intro fuel turns _ hturns
              obtain ⟨turns', rfl⟩ : ∃ turns', turns = turns' + 1 := ⟨turns - 1, by omega⟩
              refine ⟨turns', by omega, ?_⟩
              cases head with
              | true => rfl
              | false =>
                  simp only [Bool.false_eq_true, ↓reduceIte, remaining_nextChunk]
                  rfl
          | chunk file position size bytes =>
              obtain rfl := Option.some.inj hstep
              obtain ⟨out, hnext⟩ := ih hrest
              refine ⟨bytes.map .byte ++ out, hnext.cons rfl ?_⟩
              intro fuel turns _ hturns
              obtain ⟨turns', rfl⟩ : ∃ turns', turns = turns' + 1 := ⟨turns - 1, by omega⟩
              refine ⟨turns', by omega, ?_⟩
              rw [remaining_nextChunk]
              rfl
          | _ => simp [Connection.resume] at hstep
      | writeFailed part =>
          cases waiting with
          | response header body =>
              obtain rfl := Option.some.inj hstep
              refine ⟨(Message.tokens ⟨header, body⟩).take part, Sent.last rfl hrest rfl ?_⟩
              intro fuel turns
              exact (List.take_prefix part _).trans (List.prefix_append _ _)
          | contentHeader response head =>
              obtain rfl := Option.some.inj hstep
              refine ⟨[], Sent.last rfl hrest (List.append_nil sent).symm ?_⟩
              intro fuel turns
              exact List.nil_prefix
          | chunk file position size bytes =>
              obtain rfl := Option.some.inj hstep
              refine ⟨(bytes.take part).map .byte, Sent.last rfl hrest rfl ?_⟩
              intro fuel turns
              exact List.prefix_refl _
          | _ => simp [Connection.resume] at hstep

end Run

end Eems
