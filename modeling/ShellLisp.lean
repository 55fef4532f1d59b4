import ShellLisp.Editor
import ShellLisp.Main
import ShellLisp.Proofs.Changes.Clearing
import ShellLisp.Proofs.Commands.Lines
import ShellLisp.Proofs.Comparing.Laws
import ShellLisp.Proofs.Failing.Evaluation
import ShellLisp.Proofs.Failing.Texts
import ShellLisp.Proofs.Files.Writing
import ShellLisp.Proofs.Indexing.Definitions
import ShellLisp.Proofs.Indexing.Diagnostics
import ShellLisp.Proofs.Indexing.Hovering
import ShellLisp.Proofs.Interactive.Answers
import ShellLisp.Proofs.Interactive.Listing
import ShellLisp.Proofs.Interactive.Results
import ShellLisp.Proofs.Members.DottedTexts
import ShellLisp.Proofs.Members.Missing
import ShellLisp.Proofs.Members.Paths
import ShellLisp.Proofs.Parsing.Tables
import ShellLisp.Proofs.Printing.Colours
import ShellLisp.Proofs.Printing.ReadBack
import ShellLisp.Proofs.Reading.Blanks
import ShellLisp.Proofs.Reading.Grouping
import ShellLisp.Proofs.Scoping.NonInterference
import ShellLisp.Proofs.Sequences.Pipelines
import ShellLisp.Proofs.Sequences.Progressions
import ShellLisp.Proofs.Sequences.SinglePass
import ShellLisp.Proofs.Serving.Interleavings
import ShellLisp.Proofs.Serving.Streams
import ShellLisp.Proofs.Splicing.Chains
import ShellLisp.Proofs.Widening.Mapping
import ShellLisp.Request
import ShellLisp.Session.Interactive
import ShellLisp.Settings
