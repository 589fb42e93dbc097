import InputMask.Main
import InputMask.Mask.Session
import InputMask.Proofs.Analysis.Beginning
import InputMask.Proofs.Analysis.Longest
import InputMask.Proofs.Analysis.Range
import InputMask.Proofs.Analysis.Redundant
import InputMask.Proofs.Analysis.Shortest
import InputMask.Proofs.Analysis.StatedLength
import InputMask.Proofs.Filling.Ending
import InputMask.Proofs.Filling.LeftOver
import InputMask.Proofs.Layout.Bounded
import InputMask.Proofs.Mask.Answered
import InputMask.Proofs.Mask.Complete
import InputMask.Proofs.Mask.Opening
import InputMask.Proofs.Mask.Session
import InputMask.Proofs.Mask.Template
import InputMask.Proofs.Pattern.Lossless
import InputMask.Proofs.Pattern.RoundTrip
import InputMask.Proofs.Pattern.Spelling
import InputMask.Proofs.Pattern.WellMade
import InputMask.Proofs.Filling.Chosen
import InputMask.Proofs.Pattern.Positions
import InputMask.Proofs.Pattern.InBounds
import InputMask.Proofs.CommandLine.Inputs
import InputMask.Proofs.Layout.FixedText
