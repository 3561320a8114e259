/-
# `Fsmon.LogWriter.Stream` — a log as one stream of lines

The lines of a log are on disk in the file of its name, or still in the buffer
of its handle.  `stream` is both, in order.  A handle is open on the file of its
name, or it is stale: another file has taken the name, and nothing is buffered
in the handle (`Sound stale`, where `stale` says which logs may have such a
handle).  Then the handle cache only ever

    put, refuse             keeps the stream
    accept                  adds the accepted line at its end
    drop_handle, evict      keeps a prefix: the flush of a dropped handle may fail
    get_or_open             keeps a prefix

so a log is append-only up to a lost tail, and up to nothing when the flushes
succeed.
-/
import Fsmon.LogWriter

namespace Fsmon

namespace LogDir

/-- Two names never share a file, and bound inodes are in use. -/
structure Wf (d : LogDir) : Prop where
  inj : ∀ p q i, d.inode p = some i → d.inode q = some i → p = q
  fresh : ∀ p i, d.inode p = some i → i < d.next

theorem empty_wf : empty.Wf where
  inj _ _ _ h := nomatch h
  fresh _ _ h := nomatch h

theorem Wf.append {d : LogDir} (h : d.Wf) (i : Nat) (ls : List Str) : (d.append i ls).Wf :=
  ⟨h.inj, h.fresh⟩

theorem Wf.create {d : LogDir} (h : d.Wf) (p : LogPath) : (d.create p).Wf where
  inj a b i ha hb := by
    simp only [LogDir.create, Function.update_apply] at ha hb
    split at ha <;> split at hb
    · next hap hbp => rw [hap, hbp]
    · cases ha
      exact absurd (h.fresh b _ hb) (Nat.lt_irrefl _)
    · cases hb
      exact absurd (h.fresh a _ ha) (Nat.lt_irrefl _)
    · exact h.inj a b i ha hb
  fresh a i ha := by
    simp only [LogDir.create, Function.update_apply] at ha
    split at ha
    · cases ha
      exact Nat.lt_succ_self _
    · exact Nat.lt_succ_of_lt (h.fresh a i ha)

@[simp] theorem append_nil (d : LogDir) (i : Nat) : d.append i [] = d := by
  simp [append]

/-- Appending to the file of `p` shows in the lines of `p`. -/
theorem lines_append_self {d : LogDir} {p : LogPath} {i : Nat} (h : d.inode p = some i)
    (ls : List Str) : (d.append i ls).lines p = d.lines p ++ ls := by
  simp [lines, append, h]

/-- Appending to the file of `p` shows in no other log. -/
theorem lines_append_ne {d : LogDir} (hd : d.Wf) {p q : LogPath} {i : Nat}
    (h : d.inode p = some i) (hne : q ≠ p) (ls : List Str) :
    (d.append i ls).lines q = d.lines q := by
  simp only [lines, append]
  cases hq : d.inode q with
  | none => rfl
  | some j =>
      have hij : j ≠ i := by
        rintro rfl
        exact hne (hd.inj q p j hq h)
      simp [hij]

/-- Creating a log changes the lines of none. -/
theorem lines_create {d : LogDir} (hd : d.Wf) {p : LogPath} (hp : d.inode p = none)
    (q : LogPath) : (d.create p).lines q = d.lines q := by
  by_cases hqp : q = p
  · subst hqp
    simp [lines, create, hp]
  · simp only [lines, create, Function.update_of_ne hqp]
    cases hq : d.inode q with
    | none => rfl
    | some i =>
        have hlt := hd.fresh q i hq
        simp only [Function.update_of_ne (Nat.ne_of_lt hlt)]

/-- What opening a log does to the directory. -/
theorem openAppend_spec {d : LogDir} (hd : d.Wf) (p : LogPath) :
    (d.openAppend p).2.Wf ∧ (d.openAppend p).2.inode p = some (d.openAppend p).1 ∧
    (∀ q i, d.inode q = some i → (d.openAppend p).2.inode q = some i) ∧
    ∀ q, (d.openAppend p).2.lines q = d.lines q := by
  rw [openAppend]
  cases hp : d.inode p with
  | some i => exact ⟨hd, hp, fun _ _ h => h, fun _ => rfl⟩
  | none =>
      refine ⟨hd.create p, by simp [create], fun q i hq => ?_, lines_create hd hp⟩
      have hqp : q ≠ p := by
        rintro rfl
        rw [hp] at hq
        cases hq
      simpa [create, hqp] using hq

end LogDir

theorem Flush.out_append_rest (f : Flush) (ls : List Str) : f.out ls ++ f.rest ls = ls := by
  cases f with
  | done => simp [Flush.out, Flush.rest]
  | failedAfter n => simp [Flush.out, Flush.rest]

theorem Flush.out_cut (f : Flush) (ls : List Str) : f.out ls <+: ls :=
  ⟨f.rest ls, f.out_append_rest ls⟩

@[simp] theorem Flush.out_nil (f : Flush) : f.out [] = [] := by cases f <;> simp [Flush.out]

@[simp] theorem Flush.rest_nil (f : Flush) : f.rest [] = [] := by cases f <;> simp [Flush.rest]

namespace FileLogWriter

/-- The lines of `p` still in its handle's buffer. -/
def pending (w : FileLogWriter) (p : LogPath) : List Str :=
  match w.handles.lookup p with
  | some h => h.buffered
  | none => []

/-- A log's lines: on disk, then in the handle's buffer. -/
def stream (w : FileLogWriter) (p : LogPath) : List Str := w.log_dir.lines p ++ w.pending p

theorem pending_eq {w : FileLogWriter} {p : LogPath} {h : BufWriter}
    (hl : w.handles.lookup p = some h) : w.pending p = h.buffered := by simp [pending, hl]

/-- The directory is well formed, and every handle is open on the file of its name or is an
empty handle of a log in `stale`. -/
structure Sound (stale : LogPath → Prop) (w : FileLogWriter) : Prop where
  wf : w.log_dir.Wf
  live : ∀ p h, w.handles.lookup p = some h →
    w.log_dir.inode p = some h.inode ∨ (stale p ∧ h.buffered = [])

/-- Every log lost at most a tail, and none of it when `whole` holds; disks only grow. -/
structure Trims (stale : LogPath → Prop) (whole : Prop) (w w' : FileLogWriter) : Prop where
  sound : Sound stale w'
  stream : ∀ p, w'.stream p <+: w.stream p
  stream_eq : whole → ∀ p, w'.stream p = w.stream p
  disk : ∀ p, w.log_dir.lines p <+: w'.log_dir.lines p
  bound : ∀ p i, w.log_dir.inode p = some i → w'.log_dir.inode p = some i

/-- `line` came to the end of the log `p`; no other log changed. -/
structure Appends (stale : LogPath → Prop) (w w' : FileLogWriter) (p : LogPath) (line : Str) :
    Prop where
  sound : Sound stale w'
  stream_self : w'.stream p = w.stream p ++ [line]
  stream_ne : ∀ q, q ≠ p → w'.stream q = w.stream q
  disk : ∀ p, w.log_dir.lines p <+: w'.log_dir.lines p
  bound : ∀ p i, w.log_dir.inode p = some i → w'.log_dir.inode p = some i

theorem new_sound {stale : LogPath → Prop} {d : LogDir} (h : d.Wf) (now : Nat) :
    Sound stale (new d now) :=
  ⟨h, fun p h hl => by simp [new] at hl⟩

theorem stream_new (d : LogDir) (now : Nat) (p : LogPath) : (new d now).stream p = d.lines p := by
  simp [stream, pending, new]

variable {stale : LogPath → Prop}

theorem Trims.refl {w : FileLogWriter} (h : Sound stale w) (whole : Prop) :
    Trims stale whole w w :=
  ⟨h, fun _ => List.prefix_rfl, fun _ _ => rfl, fun _ => List.prefix_rfl, fun _ _ h => h⟩

theorem Trims.trans {whole : Prop} {a b c : FileLogWriter} (h₁ : Trims stale whole a b)
    (h₂ : Trims stale whole b c) : Trims stale whole a c where
  sound := h₂.sound
  stream p := (h₂.stream p).trans (h₁.stream p)
  stream_eq hw p := (h₂.stream_eq hw p).trans (h₁.stream_eq hw p)
  disk p := (h₁.disk p).trans (h₂.disk p)
  bound p i h := h₂.bound p i (h₁.bound p i h)

/-- Asking for less. -/
theorem Trims.mono {whole whole' : Prop} {a b : FileLogWriter} (h : Trims stale whole a b)
    (himp : whole' → whole) : Trims stale whole' a b :=
  { h with stream_eq := fun hw => h.stream_eq (himp hw) }

/-- Equal streams trim nothing. -/
theorem Trims.of_eq {w w' : FileLogWriter} (whole : Prop) (hs : Sound stale w')
    (heq : ∀ p, w'.stream p = w.stream p)
    (hdisk : ∀ p, w.log_dir.lines p <+: w'.log_dir.lines p)
    (hbound : ∀ p i, w.log_dir.inode p = some i → w'.log_dir.inode p = some i) :
    Trims stale whole w w' :=
  ⟨hs, fun p => heq p ▸ List.prefix_rfl, fun _ => heq, hdisk, hbound⟩

section
variable {w : FileLogWriter} (hs : Sound stale w)
include hs

theorem put_sound {p : LogPath} {h : BufWriter} (hi : w.log_dir.inode p = some h.inode)
    (out rest : List Str) : Sound stale (w.put p h out rest) where
  wf := hs.wf.append ..
  live q g hq := by
    simp only [put, HashMap.lookup_insert'] at hq
    split at hq
    · next hqp =>
        cases hq
        exact .inl (hqp ▸ hi)
    · exact hs.live q g hq

omit hs in
/-- After a `put`, the log holds what it had on disk, then `out`, then `rest`. -/
theorem stream_put_self {p : LogPath} {h : BufWriter} (hi : w.log_dir.inode p = some h.inode)
    (out rest : List Str) :
    (w.put p h out rest).stream p = w.log_dir.lines p ++ (out ++ rest) := by
  rw [stream, ← List.append_assoc]
  congr 1
  · exact LogDir.lines_append_self hi out
  · simp [pending, put]

theorem stream_put_ne {p q : LogPath} {h : BufWriter} (hi : w.log_dir.inode p = some h.inode)
    (hne : q ≠ p) (out rest : List Str) : (w.put p h out rest).stream q = w.stream q := by
  rw [stream, stream]
  congr 1
  · exact LogDir.lines_append_ne hs.wf hi hne out
  · simp [pending, put, hne]

theorem disk_append {p : LogPath} {i : Nat} (hi : w.log_dir.inode p = some i) (ls : List Str)
    (q : LogPath) : w.log_dir.lines q <+: (w.log_dir.append i ls).lines q := by
  by_cases hq : q = p
  · subst hq
    rw [LogDir.lines_append_self hi]
    exact List.prefix_append ..
  · exact (LogDir.lines_append_ne hs.wf hi hq ls).symm ▸ List.prefix_rfl

/-- A `put` that splits the buffer moves lines to disk and changes no stream; on a stale handle
it does nothing. -/
theorem put_trims {p : LogPath} {h : BufWriter} (hl : w.handles.lookup p = some h)
    {out rest : List Str} (hsplit : out ++ rest = h.buffered) (whole : Prop) :
    Trims stale whole w (w.put p h out rest) := by
  rcases hs.live p h hl with hi | ⟨hstale, hempty⟩
  · refine .of_eq whole (put_sound hs hi out rest) (fun q => ?_) (disk_append hs hi out)
      fun _ _ h => h
    by_cases hq : q = p
    · subst hq
      rw [stream_put_self hi, hsplit, stream, pending_eq hl]
    · exact stream_put_ne hs hi hq out rest
  · obtain ⟨rfl, rfl⟩ := List.append_eq_nil_iff.1 (hsplit.trans hempty)
    have hdir : (w.put p h [] []).log_dir = w.log_dir := LogDir.append_nil ..
    refine .of_eq whole ⟨hdir ▸ hs.wf, fun q g hq => ?_⟩ (fun q => ?_)
      (fun q => hdir ▸ List.prefix_rfl) fun q i hq => hdir ▸ hq
    · rw [hdir]
      simp only [put, HashMap.lookup_insert'] at hq
      split at hq
      · next hqp =>
          cases hq
          exact .inr ⟨hqp ▸ hstale, rfl⟩
      · exact hs.live q g hq
    · rw [stream, stream, hdir]
      by_cases hq : q = p
      · subst hq
        simp [pending, put, hl, hempty]
      · simp [pending, put, hq]

theorem accept_appends {p : LogPath} {h : BufWriter} (hl : w.handles.lookup p = some h)
    (hi : w.log_dir.inode p = some h.inode) (line : Str) (n : Nat) :
    Appends stale w (w.accept p h line n) p line where
  sound :=
    have hput := put_sound hs hi ((h.buffered ++ [line]).take n) ((h.buffered ++ [line]).drop n)
    ⟨hput.wf, hput.live⟩
  stream_self := by
    show (w.put p h _ _).stream p = _
    rw [stream_put_self hi, List.take_append_drop, stream, pending_eq hl, List.append_assoc]
  stream_ne q hq := stream_put_ne hs hi hq _ _
  disk := disk_append hs hi _
  bound _ _ h := h

theorem refuse_trims {p : LogPath} {h : BufWriter} (hl : w.handles.lookup p = some h) (n : Nat)
    (whole : Prop) : Trims stale whole w (w.refuse p h n) :=
  put_trims hs hl (List.take_append_drop ..) whole

theorem drop_handle_trims (p : LogPath) (f : Flush) :
    Trims stale (f = .done) w (w.drop_handle p f) := by
  rw [drop_handle]
  cases hl : w.handles.lookup p with
  | none => exact .refl hs _
  | some h =>
      have herase : ∀ q g, (w.handles.erase p).lookup q = some g →
          w.log_dir.inode q = some g.inode ∨ (stale q ∧ g.buffered = []) := by
        intro q g hq
        rw [HashMap.lookup_erase'] at hq
        split at hq
        · cases hq
        · exact hs.live q g hq
      rcases hs.live p h hl with hi | ⟨_, hempty⟩
      · have hself : ∀ q, q = p →
            stream { w with
              log_dir := w.log_dir.append h.inode (f.out h.buffered)
              handles := w.handles.erase p } q = w.log_dir.lines q ++ f.out h.buffered := by
          rintro q rfl
          simp [stream, pending, LogDir.lines_append_self hi]
        have hne : ∀ q, q ≠ p →
            stream { w with
              log_dir := w.log_dir.append h.inode (f.out h.buffered)
              handles := w.handles.erase p } q = w.stream q := by
          intro q hq
          simp [stream, pending, hq, LogDir.lines_append_ne hs.wf hi hq]
        refine ⟨⟨hs.wf.append .., herase⟩, fun q => ?_, fun hf q => ?_, disk_append hs hi _,
          fun _ _ h => h⟩
        · by_cases hq : q = p
          · rw [hself q hq, stream, hq, pending_eq hl]
            exact List.prefix_append_right_inj _ |>.2 (f.out_cut h.buffered)
          · exact (hne q hq).symm ▸ List.prefix_rfl
        · by_cases hq : q = p
          · rw [hself q hq, stream, hq, pending_eq hl, hf]
            rfl
          · exact hne q hq
      · -- a stale handle has nothing to flush
        refine .of_eq _ ⟨hs.wf.append .., ?_⟩ (fun q => ?_) (fun q => ?_) fun q i hq => ?_
        · simpa [hempty] using herase
        · by_cases hq : q = p
          · subst hq
            simp [stream, pending, hempty, hl]
          · simp [stream, pending, hq, hempty]
        · simp [hempty]
        · simpa [hempty] using hq

theorem evict_trims (io : Io) : Trims stale (io.evict = .done) w (w.evict io) := by
  rw [evict]
  split
  · cases w.evict_path io.victim with
    | none => exact .refl hs _
    | some q => exact drop_handle_trims hs q io.evict
  · exact .refl hs _

/-- Opening a log adds an empty handle on its file. -/
theorem open_trims {p : LogPath} (hl : w.handles.lookup p = none) (whole : Prop) :
    Trims stale whole w { w with
      log_dir := (w.log_dir.openAppend p).2
      handles := w.handles.insert p ⟨(w.log_dir.openAppend p).1, []⟩ } := by
  obtain ⟨hwf, hself, hbound, hlines⟩ := LogDir.openAppend_spec hs.wf p
  refine .of_eq whole ⟨hwf, fun q g hq => ?_⟩ (fun q => ?_)
    (fun q => hlines q ▸ List.prefix_rfl) hbound
  · simp only [HashMap.lookup_insert'] at hq
    split at hq
    · next hqp =>
        cases hq
        exact .inl (hqp ▸ hself)
    · exact (hs.live q g hq).imp_left (hbound q _)
  · simp only [stream, pending, HashMap.lookup_insert', hlines]
    by_cases hq : q = p
    · subst hq
      simp [hl]
    · simp [hq]

omit hs in
theorem evict_lookup_none {p : LogPath} (hl : w.handles.lookup p = none) (io : Io) :
    (w.evict io).handles.lookup p = none := by
  rw [evict]
  split
  · cases w.evict_path io.victim with
    | none => exact hl
    | some q =>
        simp only [drop_handle]
        cases w.handles.lookup q with
        | none => exact hl
        | some g => simp [HashMap.lookup_erase', hl]
  · exact hl

/-- `get_or_open` loses at most tails.  The handle it returns is in the cache; it was there
before, or it is open on the file of its name. -/
theorem get_or_open_trims {io : Io} {p : LogPath} {h? : Option BufWriter} {w₁ : FileLogWriter}
    (hg : w.get_or_open io p = (h?, w₁)) :
    Trims stale (io.evict = .done) w w₁ ∧ ∀ h, h? = some h → w₁.handles.lookup p = some h ∧
      (w.handles.lookup p = some h ∨ w₁.log_dir.inode p = some h.inode) := by
  rw [get_or_open] at hg
  cases hl : w.handles.lookup p with
  | some h =>
      simp only [hl] at hg
      cases hg
      refine ⟨.refl hs _, fun g hh => ?_⟩
      cases hh
      exact ⟨hl, .inl rfl⟩
  | none =>
      have hev := evict_trims hs io
      by_cases ho : io.open_ok = true
      · simp only [hl, ho, if_true] at hg
        cases hg
        refine ⟨hev.trans (open_trims hev.sound (evict_lookup_none hl io) _), fun h hh => ?_⟩
        cases hh
        exact ⟨by simp, .inr (LogDir.openAppend_spec hev.sound.wf p).2.1⟩
      · simp only [hl, ho] at hg
        cases hg
        exact ⟨hev, fun h hh => by cases hh⟩

theorem flush_log_trims (f : Flush) (p : LogPath) :
    Trims stale (f = .done) w (w.flush_log f p) := by
  rw [flush_log]
  cases hl : w.handles.lookup p with
  | none => exact .refl hs _
  | some h =>
      simp only
      split
      · exact drop_handle_trims hs p f
      · exact put_trims hs hl (f.out_append_rest h.buffered) _

theorem flush_handle_trims (f : Flush) (p : LogPath) :
    Trims stale (f = .done) w (w.flush_handle f p) := by
  rw [flush_handle]
  cases hl : w.handles.lookup p with
  | none => exact .refl hs _
  | some h => exact put_trims hs hl (f.out_append_rest h.buffered) _

end

/-- A loop of trimming operations trims. -/
theorem foldl_trims {whole : Prop} {g : FileLogWriter → LogPath → FileLogWriter}
    (hg : ∀ w, Sound stale w → ∀ p, Trims stale whole w (g w p)) :
    ∀ (ps : List LogPath) (w : FileLogWriter), Sound stale w → Trims stale whole w (ps.foldl g w) := by
  intro ps w hs
  refine List.foldlRecOn (motive := Trims stale whole w) ps g (.refl hs _) ?_
  intro w' h p _
  exact h.trans (hg w' h.sound p)

theorem flush_all_trims {w : FileLogWriter} (hs : Sound stale w) (f : LogPath → Flush) :
    Trims stale (∀ p, f p = .done) w (w.flush_all f) :=
  foldl_trims (fun _ hs p => (flush_handle_trims hs (f p) p).mono fun hf => hf p) _ w hs

theorem flush_and_sync_trims {w : FileLogWriter} (hs : Sound stale w) (f : LogPath → Flush) :
    Trims stale (∀ p, f p = .done) w (w.flush_and_sync_dirty_logs f) := by
  have hdrained : Trims stale (∀ p, f p = .done) w { w with dirty_logs := [] } :=
    .of_eq _ ⟨hs.wf, hs.live⟩ (fun _ => rfl) (fun _ => List.prefix_rfl) fun _ _ h => h
  exact hdrained.trans (foldl_trims
    (fun _ hs p => (flush_log_trims hs (f p) p).mono fun hf => hf p) _ _ hdrained.sound)

/-! ## The buffers -/

theorem pending_insert (w : FileLogWriter) (d : LogDir) (p q : LogPath) (h : BufWriter) :
    pending { w with log_dir := d, handles := w.handles.insert p h } q =
      if q = p then h.buffered else w.pending q := by
  simp only [pending, HashMap.lookup_insert']
  by_cases hq : q = p
  · simp [hq]
  · simp [hq]

theorem pending_put (w : FileLogWriter) (p q : LogPath) (h : BufWriter) (out rest : List Str) :
    (w.put p h out rest).pending q = if q = p then rest else w.pending q :=
  pending_insert ..

/-- Dropping a handle empties its own buffer and no other. -/
theorem pending_drop_handle (w : FileLogWriter) (p q : LogPath) (f : Flush) :
    (w.drop_handle p f).pending q = if q = p then [] else w.pending q := by
  rw [drop_handle]
  cases hl : w.handles.lookup p with
  | none =>
      by_cases hq : q = p
      · subst hq
        simp [pending, hl]
      · simp [hq]
  | some h =>
      by_cases hq : q = p
      · subst hq
        simp [pending]
      · simp [hq, pending]

/-! ## After the last flush -/

/-- A flush that succeeds empties its own buffer and no other. -/
theorem pending_flush_handle (w : FileLogWriter) (p q : LogPath) :
    (w.flush_handle .done p).pending q = if q = p then [] else w.pending q := by
  by_cases hq : q = p
  · subst hq
    rw [if_pos rfl, flush_handle]
    cases hl : w.handles.lookup q with
    | none => simp [pending, hl]
    | some h => simp [pending, put, Flush.rest]
  · rw [if_neg hq, flush_handle]
    cases w.handles.lookup p with
    | none => rfl
    | some h => simp [pending, put, hq]

theorem pending_foldl_flush (q : LogPath) : ∀ (ps : List LogPath) (w : FileLogWriter),
    w.pending q = [] ∨ q ∈ ps →
    (ps.foldl (fun w p => w.flush_handle .done p) w).pending q = [] := by
  intro ps
  induction ps with
  | nil =>
      intro _ h
      exact h.resolve_right List.not_mem_nil
  | cons p ps ih =>
      intro w h
      refine ih _ ?_
      rw [pending_flush_handle]
      split
      · exact .inl rfl
      · next hq => exact h.imp_right fun hm => (List.mem_cons.1 hm).resolve_left hq

/-- When every flush succeeds, `flush_all` leaves nothing in a buffer. -/
theorem pending_flush_all (w : FileLogWriter) (q : LogPath) :
    (w.flush_all fun _ => .done).pending q = [] := by
  refine pending_foldl_flush q _ w ?_
  cases hl : w.handles.lookup q with
  | none => exact .inl (by simp [pending, hl])
  | some h => exact .inr (AList.mem_keys.1 (AList.lookup_isSome.1 (by rw [hl]; rfl)))

/-- The end of `run` puts every log's stream on disk. -/
theorem finish_lines {w : FileLogWriter} (hs : Sound stale w) (p : LogPath) :
    w.finish.log_dir.lines p = w.stream p := by
  have hsync := flush_and_sync_trims hs fun _ => .done
  have hall := flush_all_trims hsync.sound fun _ => .done
  have hstream : w.finish.stream p = w.stream p :=
    (hsync.trans hall).stream_eq (fun _ => rfl) p
  rw [stream, finish, pending_flush_all, List.append_nil] at hstream
  exact hstream

end FileLogWriter

end Fsmon
