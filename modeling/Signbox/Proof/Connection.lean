import Signbox.Guard.Framing
import Signbox.Spec.Connection

/-!
# The lines of a connection

* `extract_eq`: the loop cuts what is buffered into lines.
* `Fits`: each chunk is within the bound, together with the unfinished line before it.
* `receive_fits`: as long as the chunks fit, the lines are those of the stream, wherever it is cut.
* `Framed`, `framed_iff`: on either socket the lines of a stream are dispatched, and the connection
  kept, exactly when the chunks fit; in any case a line over the bound is not dispatched, nor is any
  line after it.
-/

namespace Signbox

open Framing

namespace Connection

variable {s t line chunk pending : JsString} {lines chunks : List JsString} {max : ℕ}
variable {c : Connection}

/-! ## Lines -/

theorem nextLine_none (h : newline ∉ s) : nextLine s = none := by
  induction s with
  | nil => rfl
  | cons u us ih =>
    have hu : u ≠ newline := fun heq => h (heq ▸ List.mem_cons_self)
    have hus : nextLine us = none := ih fun hmem => h (List.mem_cons_of_mem _ hmem)
    rw [nextLine, if_neg hu, hus, Option.map_none]

theorem nextLine_some (h : newline ∉ line) : nextLine (line ++ newline :: s) = some (line, s) := by
  induction line with
  | nil => rw [List.nil_append, nextLine, if_pos rfl]
  | cons u us ih =>
    have hu : u ≠ newline := fun heq => h (heq ▸ List.mem_cons_self)
    have hus := ih fun hmem => h (List.mem_cons_of_mem _ hmem)
    rw [List.cons_append, nextLine, if_neg hu, hus, Option.map_some]

/-- **The loop** cuts what is buffered: the complete lines that are not blank are dispatched, and
the unfinished one stays. -/
theorem extract_eq (s : JsString) : extract s = ((cut newline s).1.filter isRequest, (cut newline s).2) := by
  induction s using frames_induction newline with
  | hopen s hs =>
    rw [extract, cut_open hs]
    split
    · rfl
    case h_2 line rest hnext =>
      rw [nextLine_none hs] at hnext
      cases hnext
  | hframe line s hline ih =>
    rw [extract, cut_frame hline]
    split
    case h_1 hnext =>
      rw [nextLine_some hline] at hnext
      cases hnext
    case h_2 line' rest hnext =>
      rw [nextLine_some hline] at hnext
      obtain ⟨rfl, rfl⟩ := Prod.mk.inj (Option.some.inj hnext)
      rw [ih, List.filter_cons]

/-! ## Chunks -/

/-- Each chunk is within the bound, together with the unfinished line before it. -/
def Fits (max : ℕ) : JsString → List JsString → Prop
  | _, [] => True
  | pending, chunk :: chunks =>
    byteLength (pending ++ chunk) ≤ max ∧ Fits max (cut newline (pending ++ chunk)).2 chunks

theorem onData_over (hover : byteLength (pending ++ chunk) > max) :
    onData max ⟨pending, false⟩ chunk = (⟨pending ++ chunk, true⟩, []) := by
  simp [onData, hover]

theorem onData_within (hwithin : byteLength (pending ++ chunk) ≤ max) :
    onData max ⟨pending, false⟩ chunk =
      (⟨(cut newline (pending ++ chunk)).2, false⟩,
        (cut newline (pending ++ chunk)).1.filter isRequest) := by
  have hnot : ¬ byteLength (pending ++ chunk) > max := by omega
  simp [onData, hnot, extract_eq]

theorem receive_destroyed (s : JsString) (chunks : List JsString) :
    receive max ⟨s, true⟩ chunks = (⟨s, true⟩, []) := by
  induction chunks with
  | nil => rfl
  | cons chunk chunks ih => simp [receive, onData, ih]

/-- **Chunks that fit** are dispatched as the stream they make up. The induction is on the chunks,
with what is pending before each. -/
theorem receive_fits (hfits : Fits max pending chunks) (hpending : newline ∉ pending) :
    receive max ⟨pending, false⟩ chunks =
      (⟨(cut newline (pending ++ chunks.flatten)).2, false⟩,
        (cut newline (pending ++ chunks.flatten)).1.filter isRequest) := by
  induction chunks generalizing pending with
  | nil =>
    rw [List.flatten_nil, List.append_nil, cut_open hpending]
    rfl
  | cons chunk chunks ih =>
    obtain ⟨hwithin, hrest⟩ := hfits
    have hnext := ih hrest (cut_rest _)
    rw [List.flatten_cons, ← List.append_assoc, cut_append, receive, onData_within hwithin]
    simp only [hnext, List.filter_append]

/-- Chunks that do not fit lose the connection. -/
theorem fits_of_kept (h : (receive max ⟨pending, false⟩ chunks).1.destroyed = false) :
    Fits max pending chunks := by
  induction chunks generalizing pending with
  | nil => trivial
  | cons chunk chunks ih =>
    by_cases hover : byteLength (pending ++ chunk) > max
    · rw [receive, onData_over hover, receive_destroyed] at h
      cases h
    · have hwithin : byteLength (pending ++ chunk) ≤ max := by omega
      rw [receive, onData_within hwithin] at h
      exact ⟨hwithin, ih h⟩

/-! ## Lines over the bound -/

/-- A newline is a character of its own, so the bytes before it are those of the text before it. -/
theorem utf8_newline (s t : JsString) :
    utf8 (s ++ newline :: t) = utf8 s ++ utf8 (newline :: t) := by
  have hlow : isLowSurrogate newline = false := by decide
  induction s using utf8.induct with
  | case1 => rfl
  | case2 u => simp [utf8, hlow]
  | case3 u v us h ih =>
    rw [List.cons_append, List.cons_append, utf8, if_pos h, utf8, if_pos h, ih, List.append_assoc]
  | case4 u v us h ih =>
    rw [List.cons_append, List.cons_append, utf8, if_neg h, utf8, if_neg h, ← List.cons_append, ih,
      List.append_assoc]

theorem utf8_cons_newline (t : JsString) : utf8 (newline :: t) = 10 :: utf8 t := by
  have hhigh : isHighSurrogate newline = false := by decide
  have hsingle : utf8.single newline = [10] := by decide
  cases t with
  | nil => rfl
  | cons v us =>
    rw [utf8, hhigh, Bool.false_and, if_neg Bool.false_ne_true, hsingle]
    rfl

theorem byteLength_line (line s : JsString) :
    byteLength (line ++ newline :: s) = byteLength line + 1 + byteLength s := by
  rw [byteLength, utf8_newline, utf8_cons_newline, List.length_append, List.length_cons]
  simp only [byteLength]
  omega

/-- A line of a text is not longer than the text. -/
theorem byteLength_cut (s : JsString) : ∀ line ∈ (cut newline s).1, byteLength line ≤ byteLength s := by
  induction s using frames_induction newline with
  | hopen s hs =>
    rw [cut_open hs]
    simp
  | hframe frame s hframe ih =>
    rw [cut_frame hframe]
    intro line hline
    have hlength := byteLength_line frame s
    rcases List.mem_cons.1 hline with rfl | hline
    · omega
    · have hle := ih line hline
      omega

/-- **What is dispatched** are the first lines of the stream, up to one that is over the bound at
the latest. -/
theorem receive_dispatched (hpending : newline ∉ pending) :
    ∃ k, (receive max ⟨pending, false⟩ chunks).2 =
        ((cut newline (pending ++ chunks.flatten)).1.take k).filter isRequest ∧
      ∀ line ∈ (cut newline (pending ++ chunks.flatten)).1.take k, byteLength line ≤ max := by
  induction chunks generalizing pending with
  | nil => exact ⟨0, rfl, by simp⟩
  | cons chunk chunks ih =>
    by_cases hover : byteLength (pending ++ chunk) > max
    · refine ⟨0, ?_, by simp⟩
      rw [receive, onData_over hover, receive_destroyed]
      rfl
    · have hwithin : byteLength (pending ++ chunk) ≤ max := by omega
      obtain ⟨k, hk, hbound⟩ := ih (cut_rest (pending ++ chunk))
      have hall : (cut newline (pending ++ (chunk :: chunks).flatten)).1 =
          (cut newline (pending ++ chunk)).1 ++
            (cut newline ((cut newline (pending ++ chunk)).2 ++ chunks.flatten)).1 := by
        rw [List.flatten_cons, ← List.append_assoc, cut_append (pending ++ chunk)]
      refine ⟨(cut newline (pending ++ chunk)).1.length + k, ?_, ?_⟩
      · rw [hall, List.take_length_add_append, List.filter_append, receive, onData_within hwithin]
        simp only [hk]
      · intro line hline
        rw [hall, List.take_length_add_append] at hline
        rcases List.mem_append.1 hline with hline | hline
        · have hle := byteLength_cut _ line hline
          omega
        · exact hbound line hline

/-- A stream of lines is dispatched line by line, and the connection kept, exactly when its chunks
fit the bound; no line over the bound is dispatched, nor any line after it. -/
structure Framed (max : ℕ) (lines chunks : List JsString) (handled : Connection × List JsString) :
    Prop where
  kept : (handled.2 = lines.filter isRequest ∧ handled.1.destroyed = false) ↔ Fits max [] chunks
  bounded : ∃ k, handled.2 = (lines.take k).filter isRequest ∧
    ∀ line ∈ lines.take k, byteLength line ≤ max

theorem receive_framed (max : ℕ) (hlines : ∀ line ∈ lines, newline ∉ line)
    (hchunks : chunks.flatten = write newline lines) :
    Framed max lines chunks (receive max opened chunks) := by
  have hcut : cut newline ([] ++ chunks.flatten) = (lines, []) := by
    rw [List.nil_append, hchunks, cut_frames hlines]
  refine ⟨⟨fun h => fits_of_kept h.2, fun hfits => ?_⟩, ?_⟩
  · rw [opened, receive_fits hfits (by simp), hcut]
    exact ⟨rfl, rfl⟩
  · obtain ⟨k, hk, hbound⟩ := receive_dispatched List.not_mem_nil
    rw [hcut] at hk hbound
    exact ⟨k, hk, hbound⟩

end Connection

open Connection in
/-- **Framing.** For every stream of lines and every way of splitting it into chunks: the lines
that are not blank are dispatched, each once and in order, and the connection is kept, exactly when
each chunk is within the bound together with the unfinished line before it. However the stream is
split, what is dispatched comes from its first lines, none of which is over the bound. The bound is
the configured one, or the default, and 4096 bytes on the admin socket. -/
theorem framed_iff (maxRequestBytes : Option ℕ) (lines chunks : List JsString)
    (hlines : ∀ line ∈ lines, newline ∉ line) (hchunks : chunks.flatten = write newline lines) :
    Framed (maxRequestBytes.getD DEFAULT_MAX_REQUEST_BYTES) lines chunks
        (handleConnection maxRequestBytes chunks) ∧
      Framed 4096 lines chunks (handleAdminConnection chunks) :=
  ⟨receive_framed _ hlines hchunks, receive_framed _ hlines hchunks⟩

namespace Pipelined

open Connection

/-- A request of fifteen bytes. -/
def whoami : JsString := js "\x7b\"op\":\"whoami\"\x7d"

/-- Two requests with room for one of them and its newline. -/
def bound : ℕ := 16

/-- Two requests, each in a chunk of its own with its newline, fit the bound: both are dispatched
and the connection is kept. -/
theorem framed_iff_separate :
    (handleConnection (some bound) [whoami ++ [newline], whoami ++ [newline]]).2 =
        [whoami, whoami] ∧
      (handleConnection (some bound)
        [whoami ++ [newline], whoami ++ [newline]]).1.destroyed = false := by
  have hfits : Fits bound [] [whoami ++ [newline], whoami ++ [newline]] :=
    ⟨by decide, by decide, trivial⟩
  exact (framed_iff (some bound) [whoami, whoami] [whoami ++ [newline], whoami ++ [newline]]
    (by decide) (by decide)).1.kept.2 hfits

/-- **Two requests in one chunk.** Each is within the bound, and the connection is dropped, because
the bound is compared with all that is buffered and not with the unfinished line. -/
theorem drops_pipelined :
    (∀ line ∈ [whoami, whoami], newline ∉ line ∧ byteLength line ≤ bound) ∧
    [write newline [whoami, whoami]].flatten = write newline [whoami, whoami] ∧
    (handleConnection (some bound) [write newline [whoami, whoami]]).2 = [] ∧
    (handleConnection (some bound) [write newline [whoami, whoami]]).1.destroyed = true := by
  have hlines : ∀ line ∈ [whoami, whoami], newline ∉ line ∧ byteLength line ≤ bound := by decide
  have hover : byteLength ([] ++ write newline [whoami, whoami]) > bound := by decide
  have hreceive : handleConnection (some bound) [write newline [whoami, whoami]] =
      (⟨[] ++ write newline [whoami, whoami], true⟩, []) := by
    rw [handleConnection, Option.getD_some, opened, receive, onData_over hover]
    rfl
  rw [hreceive]
  exact ⟨hlines, by simp, rfl, rfl⟩

end Pipelined

end Signbox
