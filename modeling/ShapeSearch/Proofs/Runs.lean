import ShapeSearch.CommandLine.Run
import ShapeSearch.Proofs.Arguments
import ShapeSearch.Proofs.Preorder
import ShapeSearch.Proofs.Soundness

namespace ShapeSearch

namespace Options

variable {o : Options} {grammar : Grammar} {files : Files} {p : Pattern}

/-- The matches in the files that can be read, file after file. -/
def records (grammar : Grammar) (files : Files) (p : Pattern) (paths : List Text) : List Record :=
  paths.flatMap fun path =>
    match files path with
    | .error _ => []
    | .ok text => (p.findAll (Source.ofText grammar text)).map (Record.ofMatch path text)

theorem records_singleton (grammar : Grammar) (files : Files) (p : Pattern) (path : Text) :
    records grammar files p [path] =
      match files path with
      | .error _ => []
      | .ok text => (p.findAll (Source.ofText grammar text)).map (Record.ofMatch path text) :=
  List.flatMap_singleton _ _

theorem length_records_le (grammar : Grammar) (files : Files) (p : Pattern) (path : Text) :
    (records grammar files p [path]).length ≤ p.config.maxMatches := by
  rw [records_singleton]
  split
  · exact Nat.zero_le _
  · rw [List.length_map, Pattern.findAll_eq_take]
    exact List.length_take_le _ _

theorem searchFile_output (o : Options) (path : Text) :
    (o.searchFile grammar files p path).output =
      (records grammar files p [path]).flatMap o.format.write := by
  rw [searchFile, records_singleton]
  cases files path with
  | error cause => rfl
  | ok text => exact (List.flatMap_map _ _ _).symm

theorem searchFiles_output (o : Options) (paths : List Text) :
    (o.searchFiles grammar files p paths).output =
      paths.flatMap fun path => (o.searchFile grammar files p path).output := by
  induction paths with
  | nil => rfl
  | cons path paths ih => rw [searchFiles, List.flatMap_cons, ih]

theorem searchFiles_output_records (o : Options) (paths : List Text) :
    (o.searchFiles grammar files p paths).output =
      (records grammar files p paths).flatMap o.format.write := by
  have hrecords : records grammar files p paths =
      paths.flatMap fun path => records grammar files p [path] :=
    List.flatMap_congr fun path _ => (records_singleton grammar files p path).symm
  rw [searchFiles_output, hrecords, List.flatMap_assoc]
  exact List.flatMap_congr fun path _ => searchFile_output o path

theorem searchFiles_complaints (o : Options) (paths : List Text) :
    (o.searchFiles grammar files p paths).complaints =
      paths.flatMap fun path => (o.searchFile grammar files p path).complaints := by
  induction paths with
  | nil => rfl
  | cons path paths ih => rw [searchFiles, List.flatMap_cons, ih]

theorem searchFiles_complaints_eq_nil_iff (o : Options) (paths : List Text) :
    (o.searchFiles grammar files p paths).complaints = [] ↔
      ∀ path ∈ paths, (o.searchFile grammar files p path).complaints = [] := by
  rw [searchFiles_complaints, List.flatMap_eq_nil_iff]

theorem searchFiles_found_eq_zero_iff (o : Options) (paths : List Text) :
    (o.searchFiles grammar files p paths).found = 0 ↔
      ∀ path ∈ paths, (o.searchFile grammar files p path).found = 0 := by
  induction paths with
  | nil => simp [searchFiles]
  | cons path paths ih => rw [searchFiles, Nat.add_eq_zero_iff, ih, List.forall_mem_cons]

theorem searchFiles_singleton (o : Options) (path : Text) :
    o.searchFiles grammar files p [path] = o.searchFile grammar files p path := by
  rw [searchFiles, searchFiles, List.append_nil, List.append_nil, Nat.add_zero]

end Options

namespace Outcome

variable {t : Tally}

theorem exitCode_ofTally (t : Tally) :
    (ofTally t).exitCode = if t.complaints = [] then if t.found = 0 then 1 else 0 else 2 := by
  simp only [ofTally, List.isEmpty_iff]

theorem exitCode_eq_two_iff : (ofTally t).exitCode = 2 ↔ t.complaints ≠ [] := by
  rw [exitCode_ofTally]
  split_ifs <;> simp [*]

theorem exitCode_eq_zero_iff : (ofTally t).exitCode = 0 ↔ t.complaints = [] ∧ t.found ≠ 0 := by
  rw [exitCode_ofTally]
  split_ifs <;> simp [*]

theorem exitCode_eq_one_iff : (ofTally t).exitCode = 1 ↔ t.complaints = [] ∧ t.found = 0 := by
  rw [exitCode_ofTally]
  split_ifs <;> simp [*]

end Outcome

namespace Options

variable {o : Options} {grammar : Grammar} {files : Files} {p : Pattern}

theorem run_eq (hcompile : Pattern.compile grammar o.config o.template = .ok p) :
    o.run grammar files = .ofTally (o.searchFiles grammar files p o.files) := by
  rw [run, hcompile]

theorem run_alone (hcompile : Pattern.compile grammar o.config o.template = .ok p) (path : Text) :
    (o.alone path).run grammar files = .ofTally (o.searchFile grammar files p path) := by
  have hcompile' : Pattern.compile grammar (o.alone path).config (o.alone path).template = .ok p :=
    hcompile
  have hfile : (o.alone path).searchFile grammar files p path =
      o.searchFile grammar files p path := rfl
  have hfiles : (o.alone path).files = [path] := rfl
  rw [run_eq hcompile', hfiles, searchFiles_singleton, hfile]

theorem run_output (hcompile : Pattern.compile grammar o.config o.template = .ok p) :
    (o.run grammar files).output =
      o.files.flatMap fun path => ((o.alone path).run grammar files).output := by
  simp only [run_eq hcompile, run_alone hcompile]
  exact searchFiles_output o o.files

theorem run_messages (hcompile : Pattern.compile grammar o.config o.template = .ok p) :
    (o.run grammar files).messages =
      o.files.flatMap fun path => ((o.alone path).run grammar files).messages := by
  simp only [run_eq hcompile, run_alone hcompile, Outcome.messages, Outcome.ofTally]
  rw [searchFiles_complaints, List.flatMap_assoc]

theorem run_exitCode (hcompile : Pattern.compile grammar o.config o.template = .ok p) :
    (o.run grammar files).exitCode =
      if ∃ path ∈ o.files, ((o.alone path).run grammar files).exitCode = 2 then 2
      else if ∃ path ∈ o.files, ((o.alone path).run grammar files).exitCode = 0 then 0
      else 1 := by
  simp only [run_eq hcompile, run_alone hcompile, Outcome.exitCode_eq_two_iff,
    Outcome.exitCode_eq_zero_iff]
  split
  next hfails =>
    obtain ⟨path, hpath, hcomplaints⟩ := hfails
    rw [Outcome.exitCode_eq_two_iff, ne_eq, searchFiles_complaints_eq_nil_iff]
    exact fun hall => hcomplaints (hall path hpath)
  next hfails =>
    have hquiet : ∀ path ∈ o.files, (o.searchFile grammar files p path).complaints = [] := by
      intro path hpath
      by_contra hcomplaints
      exact hfails ⟨path, hpath, hcomplaints⟩
    split
    next hfinds =>
      obtain ⟨path, hpath, -, hfound⟩ := hfinds
      rw [Outcome.exitCode_eq_zero_iff, searchFiles_complaints_eq_nil_iff, ne_eq,
        searchFiles_found_eq_zero_iff]
      exact ⟨hquiet, fun hall => hfound (hall path hpath)⟩
    next hfinds =>
      rw [Outcome.exitCode_eq_one_iff, searchFiles_complaints_eq_nil_iff,
        searchFiles_found_eq_zero_iff]
      refine ⟨hquiet, fun path hpath => ?_⟩
      by_contra hfound
      exact hfinds ⟨path, hpath, hquiet path hpath, hfound⟩

theorem maxMatches_of_compile (hcompile : Pattern.compile grammar o.config o.template = .ok p) :
    p.config.maxMatches = o.maxMatches.getD Config.default.maxMatches := by
  rw [Pattern.config_of_compile hcompile, config]

/-- The limit is the value of the flag among the arguments. -/
theorem exists_maxMatches_of_read {arguments : List Text} (h : read arguments = .ok o) :
    ∃ a, Arguments.none.addAll arguments = .ok a ∧ o.maxMatches = a.limit? .maxMatches := by
  obtain ⟨a, ha, hfinish⟩ := bind_eq_ok_iff.mp h
  refine ⟨a, ha, ?_⟩
  unfold Arguments.finish at hfinish
  split at hfinish
  case h_4 =>
    cases hfinish
    rfl
  all_goals cases hfinish

end Options

namespace CommandLine

/-- A search in several files does what the searches in one file each do, one after another. It
fails if one of them does, and else it finds something if one of them does. A file is told in the
records of its matches, of which there are no more than the flag for that says. -/
theorem run_files (grammar : Grammar) (files : Files) {arguments : List Text} {o : Options}
    {p : Pattern} (hread : Options.read arguments = .ok o)
    (hcompile : Pattern.compile grammar o.config o.template = .ok p) :
    (∀ path ∈ o.files, ∃ alone, Options.read alone = .ok (o.alone path)) ∧
      ∀ alone : Text → List Text, (∀ path ∈ o.files, Options.read (alone path) = .ok (o.alone path)) →
        (run grammar files arguments).output =
            o.files.flatMap (fun path => (run grammar files (alone path)).output) ∧
          (run grammar files arguments).messages =
              o.files.flatMap (fun path => (run grammar files (alone path)).messages) ∧
            (run grammar files arguments).exitCode =
                (if ∃ path ∈ o.files, (run grammar files (alone path)).exitCode = 2 then 2
                else if ∃ path ∈ o.files, (run grammar files (alone path)).exitCode = 0 then 0
                else 1) ∧
              (∃ a, Arguments.none.addAll arguments = .ok a ∧
                o.maxMatches = a.limit? .maxMatches) ∧
              ∀ path ∈ o.files,
                (run grammar files (alone path)).output =
                    (Options.records grammar files p [path]).flatMap o.format.write ∧
                  (Options.records grammar files p [path]).length ≤
                    o.maxMatches.getD Config.default.maxMatches := by
  have hvalid := Options.valid_of_read hread
  refine ⟨fun path hpath => ⟨_, Options.read_arguments (hvalid.alone hpath)⟩, fun alone halone => ?_⟩
  have hrun : run grammar files arguments = o.run grammar files := by rw [run, hread]
  have hsingle : ∀ path ∈ o.files,
      run grammar files (alone path) = (o.alone path).run grammar files := by
    intro path hpath
    rw [run, halone path hpath]
  refine ⟨?_, ?_, ?_, Options.exists_maxMatches_of_read hread, fun path hpath => ⟨?_, ?_⟩⟩
  · rw [hrun, Options.run_output hcompile]
    exact List.flatMap_congr fun path hpath => by rw [hsingle path hpath]
  · rw [hrun, Options.run_messages hcompile]
    exact List.flatMap_congr fun path hpath => by rw [hsingle path hpath]
  · have hexit (code : Nat) : (∃ path ∈ o.files, (run grammar files (alone path)).exitCode = code) ↔
        ∃ path ∈ o.files, ((o.alone path).run grammar files).exitCode = code :=
      exists_congr fun path => and_congr_right fun hpath => by rw [hsingle path hpath]
    rw [hrun, Options.run_exitCode hcompile]
    simp only [hexit]
  · rw [hsingle path hpath, Options.run_alone hcompile]
    exact Options.searchFile_output o path
  · rw [← Options.maxMatches_of_compile hcompile]
    exact Options.length_records_le grammar files p path

def pairFiles : Files := fun path =>
  if path = "a.rs".toList then .ok "((a, b), a);".toList else .error .notFound

def pairArguments (paths : List Text) : List Text :=
  "--max-matches".toList :: "1".toList :: "(('_x, '_y), '_x);".toList :: paths

def pairOptions : Options :=
  ⟨"(('_x, '_y), '_x);".toList, ["a.rs".toList, "b.rs".toList, "a.rs".toList], .human, some 1, none,
    false⟩

/-- A file that is there, one that is not, and the first one again. -/
theorem run_files_of_missing : ∃ p,
    Options.read (pairArguments pairOptions.files) = .ok pairOptions ∧
      Pattern.compile Pattern.tupleGrammar pairOptions.config pairOptions.template = .ok p ∧
        (∀ path ∈ pairOptions.files,
          Options.read (pairArguments [path]) = .ok (pairOptions.alone path)) ∧
        (run Pattern.tupleGrammar pairFiles (pairArguments pairOptions.files)).output ≠ [] ∧
          (run Pattern.tupleGrammar pairFiles (pairArguments pairOptions.files)).output =
              pairOptions.files.flatMap
                (fun path => (run Pattern.tupleGrammar pairFiles (pairArguments [path])).output) ∧
            (run Pattern.tupleGrammar pairFiles (pairArguments pairOptions.files)).exitCode = 2 ∧
              (Options.records Pattern.tupleGrammar pairFiles p ["a.rs".toList]).length ≤ 1 := by
  have hread : (Options.read (pairArguments pairOptions.files)).toOption = some pairOptions := by
    decide +kernel
  have halone : ∀ path ∈ pairOptions.files,
      (Options.read (pairArguments [path])).toOption = some (pairOptions.alone path) := by
    decide +kernel
  have hcompile : (Pattern.compile Pattern.tupleGrammar pairOptions.config
      pairOptions.template).toOption.isSome = true := by
    decide +kernel
  have hfails : (run Pattern.tupleGrammar pairFiles (pairArguments ["b.rs".toList])).exitCode = 2 := by
    decide +kernel
  obtain ⟨p, hp⟩ := Option.isSome_iff_exists.mp hcompile
  have hread := ok_of_toOption hread
  have hp := ok_of_toOption hp
  have halone := fun path hpath => ok_of_toOption (halone path hpath)
  obtain ⟨houtput, -, hexit, -, hfiles⟩ :=
    (run_files Pattern.tupleGrammar pairFiles hread hp).2 (fun path => pairArguments [path]) halone
  refine ⟨p, hread, hp, halone, ?_, houtput, ?_, (hfiles _ List.mem_cons_self).2⟩
  · decide +kernel
  · rw [hexit, if_pos ⟨_, List.mem_cons_of_mem _ List.mem_cons_self, hfails⟩]

end CommandLine

end ShapeSearch
