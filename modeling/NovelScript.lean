import NovelScript.Main
import NovelScript.Proofs.Evaluation.Arithmetic
import NovelScript.Proofs.Evaluation.Scopes
import NovelScript.Proofs.Evaluation.Sizes
import NovelScript.Proofs.Evaluation.Termination
import NovelScript.Proofs.Parsing.Chains
import NovelScript.Proofs.Parsing.Depth
import NovelScript.Proofs.Parsing.Numerals
import NovelScript.Proofs.Parsing.Recovery
import NovelScript.Proofs.Parsing.Sequence
import NovelScript.Proofs.Parsing.Spelling
import NovelScript.Proofs.Reading.Fonts
import NovelScript.Proofs.Reading.LineEndings
import NovelScript.Proofs.Reading.Lines
import NovelScript.Proofs.Reading.Places
import NovelScript.Proofs.Reading.Rendering
import NovelScript.Proofs.Reading.Settings
import NovelScript.Proofs.Reading.Spans
import NovelScript.Proofs.Reading.TagLines
import NovelScript.Proofs.Reading.Templates
import NovelScript.Proofs.Reading.Texts
import NovelScript.Proofs.Running.Console
import NovelScript.Proofs.Running.Definedness
import NovelScript.Proofs.Running.Diagnostics
import NovelScript.Proofs.Running.Indents
import NovelScript.Proofs.Running.Jumps
import NovelScript.Proofs.Running.Progress
import NovelScript.Proofs.Running.Queueing
import NovelScript.Proofs.Running.Quoting
import NovelScript.Proofs.Running.Resumption
import NovelScript.Proofs.Running.Status
import NovelScript.Proofs.Running.Switches
import NovelScript.Proofs.Running.Waits
